import Mathlib.Data.List.Basic
import Seedbed.Proofs.Overlap.Independence

/-! The order in which the inserts of runs settle. It decides between runs that register one label,
as the last insert under it counts. Where no two runs do, it makes no difference. -/

namespace Seedbed

namespace Overlap

variable {σ : Type} {source : Source σ} {st : State σ}

/-! ### Labels of one run -/

theorem mem_own {α : Type} {i : Nat} {a : α} {tagged : List (Nat × α)} :
    a ∈ own i tagged ↔ (i, a) ∈ tagged := by
  simp [own]

theorem own_reverse {α : Type} (i : Nat) (tagged : List (Nat × α)) :
    own i tagged.reverse = (own i tagged).reverse := by
  rw [own, own, List.filter_reverse, List.map_reverse]

/-- A label that only one run has is looked up among what belongs to this run. -/
theorem lookup_own {β : Type} {i : Nat} {l : String} {tagged : List (Nat × String × β)}
    (h : ∀ e ∈ tagged, e.2.1 = l → e.1 = i) :
    (tagged.map Prod.snd).lookup l = (own i tagged).lookup l := by
  induction tagged with
  | nil => rfl
  | cons e tagged ih =>
    obtain ⟨j, label, b⟩ := e
    have ih := ih fun e he => h e (List.mem_cons_of_mem _ he)
    by_cases hl : l = label
    · have hj : j = i := h (j, label, b) List.mem_cons_self hl.symm
      simp [own, hj, hl]
    · by_cases hj : j = i
      · simpa [own, hj, List.lookup_cons, beq_eq_false_iff_ne.2 hl] using ih
      · simpa [own, hj, List.lookup_cons, beq_eq_false_iff_ne.2 hl] using ih

/-- Where no two runs have one label, the order between runs does not matter. -/
theorem lookup_of_own {β : Type} {a b : List (Nat × String × β)} (h : ∀ i, own i a = own i b)
    (hd : ∀ i j, i ≠ j → List.Disjoint ((own i a).map Prod.fst) ((own j a).map Prod.fst))
    (l : String) :
    (a.map Prod.snd).reverse.lookup l = (b.map Prod.snd).reverse.lookup l := by
  have hlabel {i : Nat} {p : String × β} (hp : (i, p) ∈ a) : p.1 ∈ (own i a).map Prod.fst :=
    List.mem_map_of_mem (mem_own.2 hp)
  have hab {i : Nat} {p : String × β} (hp : (i, p) ∈ b) : (i, p) ∈ a := by
    rw [← mem_own, h]
    exact mem_own.2 hp
  -- the run that has the label, if there is one
  obtain ⟨i, hi⟩ : ∃ i, ∀ e ∈ a, e.2.1 = l → e.1 = i := by
    by_cases hex : ∃ e ∈ a, e.2.1 = l
    · obtain ⟨⟨i, p⟩, hp, hl⟩ := hex
      refine ⟨i, fun e he hl' => ?_⟩
      by_contra hne
      exact hd e.1 i hne (hlabel he) (hl'.trans hl.symm ▸ hlabel hp)
    · exact ⟨0, fun e he hl => absurd ⟨e, he, hl⟩ hex⟩
  rw [← List.map_reverse, ← List.map_reverse, lookup_own (i := i), lookup_own (i := i),
    own_reverse, own_reverse, h]
  · intro e he
    exact hi e (hab (List.mem_reverse.1 he))
  · intro e he
    exact hi e (List.mem_reverse.1 he)

/-! ### What runs register -/

namespace State

/-- The inserts that answered, each with the number of its run and under the label of its record. -/
def registrations (st : State σ) : List (Nat × String × Identifier) :=
  st.events.filterMap fun e => e.2.fulfilled?.map fun p => (e.1, p)

/-- The labels that a run has registered. -/
def labels (st : State σ) (i : Nat) : List String := (fulfilled (st.trace i)).map Prod.fst

theorem map_snd_registrations (st : State σ) :
    st.registrations.map Prod.snd = fulfilled (st.events.map Prod.snd) := by
  simp [registrations, fulfilled, List.map_filterMap, List.filterMap_map, Function.comp_def]

theorem own_registrations (st : State σ) (i : Nat) :
    own i st.registrations = fulfilled (st.trace i) := by
  rw [registrations, trace, own, own, fulfilled]
  induction st.events with
  | nil => rfl
  | cons e events ih =>
    obtain ⟨j, m⟩ := e
    by_cases hj : j = i
    · cases hm : m.fulfilled? with
      | none => simpa [hj, hm] using ih
      | some p => simpa [hj, hm] using ih
    · cases hm : m.fulfilled? with
      | none => simpa [hj, hm] using ih
      | some p => simpa [hj, hm] using ih

end State

theorem names_performAll_fresh (source : Source σ) (steps : List (Step σ)) (s : Seeder) (w : σ) :
    (performAll source steps (.fresh s w)).seeder.names = s.names.registered
      ((performAll source steps (.fresh s w)).registrations.map Prod.snd) := by
  obtain ⟨new, hevents, hnames⟩ := adds_performAll source steps (.fresh s w)
  rw [State.map_snd_registrations, hevents]
  exact hnames

/-- What is looked up is the last insert that answered, of all runs. -/
theorem lookup_performAll_fresh (source : Source σ) (steps : List (Step σ)) (s : Seeder) (w : σ)
    (l : String) :
    (performAll source steps (.fresh s w)).seeder.lookup l =
      ((((performAll source steps (.fresh s w)).registrations.map Prod.snd).reverse.lookup l).map
        Identifier.toText).or (s.lookup l) := by
  rw [Seeder.lookup, names_performAll_fresh, Registry.lookup_registered, Seeder.lookup]

/-- Schedules in which each run registers the same end with the same registry if no two runs have
a label in common. -/
theorem lookup_of_fulfilled {source' : Source σ} {steps steps' : List (Step σ)} {s : Seeder}
    {w w' : σ} {st st' : State σ} (hst : performAll source steps (.fresh s w) = st)
    (hst' : performAll source' steps' (.fresh s w') = st')
    (h : ∀ i, fulfilled (st'.trace i) = fulfilled (st.trace i))
    (hd : ∀ i j, i ≠ j → List.Disjoint (st.labels i) (st.labels j)) (l : String) :
    st'.seeder.lookup l = st.seeder.lookup l := by
  subst hst hst'
  rw [lookup_performAll_fresh, lookup_performAll_fresh]
  refine congrArg (fun o => (Option.map Identifier.toText o).or _) (lookup_of_own ?_ ?_ l).symm
  · intro i
    rw [State.own_registrations, State.own_registrations, h]
  · intro i j hij
    rw [State.own_registrations, State.own_registrations]
    exact hd i j hij

/-- Two runs that share a label: the one whose insert settles last has it, not the one that began
last. -/
example :
    let source : Source Unit := ⟨fun _ _ w => (.ok "", w), fun _ w => (.ok none, w)⟩
    let one : Decoder Unit := fun _ w => (.ok (.ofList [("a", .null)]), w)
    let begin : Step Unit := .start "a.yml" one fun _ _ w => (.ok (), w)
    ((performAll source [begin, begin, .settle 1 (.ok (.text "1")), .settle 0 (.ok (.text "0"))]
      (.fresh {} ())).seeder.lookup "a") = some "0" := by
  decide +kernel

/-! ### Settlements only -/

/-- Whether the insert function throws depends only on the record. -/
def Steady (call : Caller σ) : Prop :=
  ∀ names names' record w w', (call names record w).1 = (call names' record w').1

theorem steady_proceed {call : Caller σ} (h : Steady call) (run : Run) (s s' : Seeder) (w w' : σ) :
    (proceed call run s w).stage = (proceed call run s' w').stage ∧
      (proceed call run s w).marks = (proceed call run s' w').marks := by
  obtain ⟨filename, ids, pending⟩ := run
  cases pending with
  | nil => exact ⟨rfl, rfl⟩
  | cons entry rest =>
    have hcall := h s.names s'.names entry.2 w w'
    rcases Action.run_cases (call s.names entry.2) w with ⟨⟨⟩, w₁, h₁⟩ | ⟨e, w₁, h₁⟩
    · have h₂ : call s'.names entry.2 w' = (.ok (), (call s'.names entry.2 w').2) := by
        rw [h₁] at hcall
        exact Prod.ext hcall.symm rfl
      rw [proceed_ok h₁, proceed_ok h₂]
      exact ⟨rfl, rfl⟩
    · have h₂ : call s'.names entry.2 w' = (.error e, (call s'.names entry.2 w').2) := by
        rw [h₁] at hcall
        exact Prod.ext hcall.symm rfl
      rw [proceed_error h₁, proceed_error h₂]
      exact ⟨rfl, rfl⟩

theorem steady_resume {call : Caller σ} (h : Steady call) (run : Run)
    (outcome : Except Thrown Identifier) (s s' : Seeder) (w w' : σ) :
    (resume call run outcome s w).stage = (resume call run outcome s' w').stage ∧
      (resume call run outcome s w).marks = (resume call run outcome s' w').marks := by
  obtain ⟨filename, ids, pending⟩ := run
  cases pending with
  | nil => exact ⟨rfl, rfl⟩
  | cons entry rest =>
    cases outcome with
    | error e => exact ⟨rfl, rfl⟩
    | ok id =>
      obtain ⟨hstage, hmarks⟩ := steady_proceed h { filename, ids := ids ++ [id], pending := rest }
        (s.register filename entry.1 id) (s'.register filename entry.1 id) w w'
      rw [resume_ok, resume_ok]
      exact ⟨hstage, congrArg (_ :: ·) hmarks⟩

theorem eq_of_waiting_proceed {call call' : Caller σ} {run run' : Run} {s : Seeder} {w : σ}
    (h : (proceed call run s w).stage = .waiting run' call') : call' = call := by
  rcases proceed_cases call run s w with ⟨-, hp⟩ | ⟨entry, rest, w', -, ⟨-, hp⟩ | ⟨e, -, hp⟩⟩
  · rw [hp] at h
    cases h
  · rw [hp] at h
    cases h
    rfl
  · rw [hp] at h
    cases h

theorem eq_of_waiting_resume {call call' : Caller σ} {run run' : Run}
    {outcome : Except Thrown Identifier} {s : Seeder} {w : σ}
    (h : (resume call run outcome s w).stage = .waiting run' call') : call' = call := by
  obtain ⟨filename, ids, pending⟩ := run
  cases pending with
  | nil =>
    cases h
    rfl
  | cons entry rest =>
    cases outcome with
    | error e => cases h
    | ok id => exact eq_of_waiting_proceed h

/-- States in which a run is the same, and its insert function is steady. -/
structure SameRun (i : Nat) (a b : State σ) : Prop where
  runs : a.runs[i]? = b.runs[i]?
  trace : a.trace i = b.trace i
  steady : ∀ run call, a.runs[i]? = some (.waiting run call) → Steady call

theorem SameRun.settle {i : Nat} {a b : State σ} (h : SameRun i a b)
    (outcome : Except Thrown Identifier) :
    SameRun i ((Step.settle i outcome).perform source a)
      ((Step.settle i outcome).perform source b) := by
  rw [Step.perform, Step.perform, ← h.runs]
  split
  · rename_i run call hrun
    have hi : i < a.runs.length := (List.getElem?_eq_some_iff.1 hrun).1
    have hi' : i < b.runs.length := (List.getElem?_eq_some_iff.1 (h.runs ▸ hrun)).1
    have hsteady := h.steady run call hrun
    obtain ⟨hstage, hmarks⟩ := steady_resume hsteady run outcome a.seeder b.seeder a.world b.world
    refine ⟨?_, ?_, fun run' call' hw => ?_⟩
    · rw [State.runs_take hi, State.runs_take hi', hstage]
    · rw [State.trace_take, State.trace_take, h.trace, hmarks]
    · rw [State.runs_take hi] at hw
      rw [eq_of_waiting_resume (Option.some.inj hw)]
      exact hsteady
  · exact h

theorem SameRun.settle_other {i j : Nat} {a b : State σ} (h : SameRun i a b) (hj : j ≠ i)
    (outcome : Except Thrown Identifier) :
    SameRun i ((Step.settle j outcome).perform source a) b := by
  rw [Step.perform]
  split
  · refine ⟨?_, ?_, fun run call hw => ?_⟩
    · rw [State.runs_take_ne hj, h.runs]
    · rw [State.trace_take_ne hj, h.trace]
    · rw [State.runs_take_ne hj] at hw
      exact h.steady run call hw
  · exact h

def settleAll (outcomes : List (Nat × Except Thrown Identifier)) : List (Step σ) :=
  outcomes.map fun p => .settle p.1 p.2

/-- To a run only its own settlements matter. -/
theorem SameRun.settleAll {i : Nat} {a b : State σ} (h : SameRun i a b)
    (outcomes : List (Nat × Except Thrown Identifier)) :
    SameRun i (performAll source (settleAll outcomes) a)
      (performAll source ((own i outcomes).map (.settle i)) b) := by
  induction outcomes generalizing a b with
  | nil => exact h
  | cons p outcomes ih =>
    obtain ⟨j, outcome⟩ := p
    by_cases hj : j = i
    · subst hj
      have hown : own j ((j, outcome) :: outcomes) = outcome :: own j outcomes := by simp [own]
      rw [hown]
      exact ih (h.settle outcome)
    · have hown : own i ((j, outcome) :: outcomes) = own i outcomes := by simp [own, hj]
      rw [hown]
      exact ih (h.settle_other hj outcome)

/-- What is seen of the runs in flight does not depend on the order in which their inserts settle,
as long as the inserts of each run settle in the same way. -/
theorem trace_settleAll (source : Source σ) (st : State σ)
    (hs : ∀ (i : Nat) run call, st.runs[i]? = some (.waiting run call) → Steady call)
    {a b : List (Nat × Except Thrown Identifier)} (h : ∀ i, own i a = own i b) (i : Nat) :
    (performAll source (settleAll b) st).trace i =
      (performAll source (settleAll a) st).trace i := by
  have hsame : SameRun i st st := ⟨rfl, rfl, hs i⟩
  have ha : SameRun i (performAll source (Overlap.settleAll a) st) _ := hsame.settleAll a
  have hb : SameRun i (performAll source (Overlap.settleAll b) st) _ := hsame.settleAll b
  rw [ha.trace, hb.trace, h i]

/-- What holds at any moment of runs that overlap. `st` is the state after some steps, from one in
which nothing had begun. -/
structure Upheld (source : Source σ) (steps : List (Step σ)) (s : Seeder) (w : σ) (st : State σ) :
    Prop where
  /-- A run that began in `st₀` goes on with the records that its file had there, whatever steps
  came after. They are handed over once each and in their order, with one insert in flight at
  most. -/
  runs : ∀ before step after filename decoder, steps = before ++ step :: after →
    Step.file? step = some (filename, decoder) → ∃ st₀ i,
      performAll source before (.fresh s w) = st₀ ∧ st₀.runs.length = i ∧
      Follows source st₀ filename decoder st i ∧
      (∀ records w', loadRecords source filename decoder (some st₀.seeder.baseDir) st₀.seeder.names
          st₀.world = (.ok records, w') →
        (st.trace i).filterMap Mark.called? <+: records.entries) ∧
      ∃ inFlight, inFlight.length ≤ 1 ∧
        (st.trace i).filterMap Mark.called? = (st.trace i).filterMap Mark.settled? ++ inFlight
  /-- A label stands for the last insert that answered under it, of all runs. -/
  lookup : ∀ l, st.seeder.lookup l =
    (((st.registrations.map Prod.snd).reverse.lookup l).map Identifier.toText).or (s.lookup l)
  /-- The directory is the last one that was set, whatever the runs did. -/
  directory : st.seeder.baseDir = (steps.filterMap Step.dir?).getLast?.getD s.baseDir
  /-- An insert that answers is registered. -/
  registered : ∀ (i : Nat) run call entry rest id, st.runs[i]? = some (.waiting run call) →
    run.pending = entry :: rest → ((Step.settle i (.ok id)).perform source st).seeder.names =
      st.seeder.names.insert entry.1 id.toText
  /-- No step changes any other run than its own. -/
  others : ∀ i < st.runs.length, ∀ step : Step σ, (∀ outcome, step ≠ .settle i outcome) →
    (step.perform source st).runs[i]? = st.runs[i]? ∧
    (step.perform source st).trace i = st.trace i
  /-- To the other runs it is the same at which stage a run is, failed or not, and what was
  logged. -/
  unseen : ∀ i stage log (after : List (Step σ)), (∀ outcome, .settle i outcome ∉ after) →
    AgreeApart i (performAll source after (st.withStage i stage log)) (performAll source after st)
  /-- So an insert that fails is to them as one that never settles. -/
  failing : ∀ i e (after : List (Step σ)), (∀ outcome, .settle i outcome ∉ after) →
    AgreeApart i (performAll source (.settle i (.error e) :: after) st) (performAll source after st)
  /-- Any schedule in which each run registers the same ends with the same registry, if no two runs
  have a label in common. -/
  schedules : ∀ steps' w' st', performAll source steps' (.fresh s w') = st' →
    (∀ i, fulfilled (st'.trace i) = fulfilled (st.trace i)) →
    (∀ i j, i ≠ j → List.Disjoint (st.labels i) (st.labels j)) →
    ∀ l, st'.seeder.lookup l = st.seeder.lookup l
  /-- So the inserts in flight can settle in any order, and those after them, as long as what others
  do does not make an insert function throw. -/
  settlements : ∀ a b, (∀ i, own i a = own i b) →
    (∀ (i : Nat) run call, st.runs[i]? = some (.waiting run call) → Steady call) →
    ∀ st₁ st₂, performAll source (settleAll a) st = st₁ → performAll source (settleAll b) st = st₂ →
    (∀ i j, i ≠ j → List.Disjoint (st₁.labels i) (st₁.labels j)) →
    ∀ l, st₂.seeder.lookup l = st₁.seeder.lookup l

/-- Runs can overlap in any schedule, with other calls on the seeder in between: each keeps to its
own records, the registry keeps the last identifier of each label, and where the runs share no label
the order in which they take turns does not matter. -/
theorem overlapping_runs (source : Source σ) (steps : List (Step σ)) (s : Seeder) (w : σ) :
    Upheld source steps s w (performAll source steps (.fresh s w)) where
  runs before step after filename decoder hsteps hf := by
    subst hsteps
    have hsound : (performAll source before (State.fresh s w)).Sound :=
      sound_performAll source before (State.sound_fresh s w)
    have hfollows := follows_performAll source hsound hf after
    rw [← performAll_append] at hfollows
    exact ⟨_, _, rfl, rfl, hfollows, hfollows.called_prefix, hfollows.settled_prefix⟩
  lookup := lookup_performAll_fresh source steps s w
  directory := baseDir_performAll source steps (.fresh s w)
  registered i run call entry rest id hrun hpending := names_settle hrun hpending id
  others i hi step hs := perform_other source hi hs
  unseen i stage log _ hs := agreeApart_performAll_withStage source _ i stage log hs
  failing i e after hs := agreeApart_performAll_fail source _ i e hs
  schedules steps' w' st' hst' h hd l := lookup_of_fulfilled rfl hst' h hd l
  settlements a b h hs st₁ st₂ ha hb hd l := by
    have htrace := trace_settleAll source _ hs h
    rw [ha, hb] at htrace
    rw [← performAll_append] at ha hb
    exact lookup_of_fulfilled ha hb (fun i => by rw [htrace i]) hd l

end Overlap

end Seedbed
