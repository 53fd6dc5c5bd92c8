import Seedbed.Proofs.Overlap.Steps

/-! What each of the runs that overlap does. Its records are those that its file had when it began,
and it hands them over one by one in their order, whatever other runs do meanwhile. -/

namespace Seedbed

namespace Overlap

variable {σ : Type} {source : Source σ} {filename : String} {decoder : Decoder σ}
  {entries : List (String × Value)} {marks : List Mark} {stage : Stage σ} {st : State σ}

/-! ### The progress of a run -/

def woven (entries : List (String × Value)) (ids : List Identifier) : List Mark :=
  Mark.ofAnswers ((entries.zip ids).map fun p => (p.1, .ok p.2))

/-- How far a run has come with its records, by what is seen of it: the inserts so far all
answered, up to one that is in flight, one that failed, or the last one. -/
inductive Progress (filename : String) (entries : List (String × Value)) :
    List Mark → Stage σ → Prop
  | waiting {done rest : List (String × Value)} {entry : String × Value} {ids : List Identifier}
      (call : Caller σ) (split : entries = done ++ entry :: rest)
      (length : ids.length = done.length) :
      Progress filename entries (woven done ids ++ [.called entry])
        (.waiting { filename, ids, pending := entry :: rest } call)
  | failed {done rest : List (String × Value)} {entry : String × Value} {ids : List Identifier}
      {e : Thrown} (split : entries = done ++ entry :: rest) (length : ids.length = done.length) :
      Progress filename entries (woven done ids ++ [.called entry, .settled entry (.error e)])
        (.ended (.error (.fault (Fault.insertFailed filename entry.1 e))))
  | finished {ids : List Identifier} (length : ids.length = entries.length) :
      Progress filename entries (woven entries ids) (.ended (.ok ids))

theorem woven_append {done later : List (String × Value)} {ids : List Identifier}
    (h : ids.length = done.length) (new : List Identifier) :
    woven (done ++ later) (ids ++ new) = woven done ids ++ woven later new := by
  simp only [woven, Mark.ofAnswers, List.zip_append h.symm, List.map_append, List.flatMap_append]

/-- What shows the entry once for each insert shows all entries. -/
theorem filterMap_woven {f : Mark → Option (String × Value)}
    (hf : ∀ entry id, [Mark.called entry, .settled entry (.ok id)].filterMap f = [entry])
    {ids : List Identifier} (h : ids.length = entries.length) :
    (woven entries ids).filterMap f = entries := by
  induction entries generalizing ids with
  | nil => rfl
  | cons entry entries ih =>
    cases ids with
    | nil => cases h
    | cons id ids =>
      have hcons : woven (entry :: entries) (id :: ids) =
          [.called entry, .settled entry (.ok id)] ++ woven entries ids := rfl
      rw [hcons, List.filterMap_append, hf, ih (Nat.succ.inj h)]
      rfl

theorem called?_woven {ids : List Identifier} (h : ids.length = entries.length) :
    (woven entries ids).filterMap Mark.called? = entries :=
  filterMap_woven (fun _ _ => rfl) h

theorem settled?_woven {ids : List Identifier} (h : ids.length = entries.length) :
    (woven entries ids).filterMap Mark.settled? = entries :=
  filterMap_woven (fun _ _ => rfl) h

/-- The records are handed over once each, in their order. -/
theorem Progress.called_prefix (h : Progress filename entries marks stage) :
    marks.filterMap Mark.called? <+: entries := by
  cases h with
  | waiting call split length =>
    rw [List.filterMap_append, called?_woven length, split]
    exact ⟨_, List.append_assoc _ [_] _⟩
  | failed split length =>
    rw [List.filterMap_append, called?_woven length, split]
    exact ⟨_, List.append_assoc _ [_] _⟩
  | finished length => simp [called?_woven length]

theorem Progress.settled_prefix (h : Progress filename entries marks stage) :
    ∃ inFlight, inFlight.length ≤ 1 ∧
      marks.filterMap Mark.called? = marks.filterMap Mark.settled? ++ inFlight := by
  cases h with
  | waiting call split length =>
    rw [List.filterMap_append, List.filterMap_append, called?_woven length, settled?_woven length]
    exact ⟨[_], Nat.le_refl 1, by rw [List.append_assoc]; rfl⟩
  | failed split length =>
    rw [List.filterMap_append, List.filterMap_append, called?_woven length, settled?_woven length]
    exact ⟨[], Nat.zero_le 1, (List.append_nil _).symm⟩
  | finished length =>
    rw [called?_woven length, settled?_woven length]
    exact ⟨[], Nat.zero_le 1, (List.append_nil _).symm⟩

theorem progress_proceed {done rest : List (String × Value)} {ids : List Identifier}
    (split : entries = done ++ rest) (length : ids.length = done.length) (filename : String)
    (call : Caller σ) (s : Seeder) (w : σ) :
    Progress filename entries
      (woven done ids ++ (proceed call { filename, ids, pending := rest } s w).marks)
      (proceed call { filename, ids, pending := rest } s w).stage := by
  rcases proceed_cases call { filename, ids, pending := rest } s w with
    ⟨hrest, h⟩ | ⟨entry, later, w', hrest, ⟨-, h⟩ | ⟨e, -, h⟩⟩
  · cases hrest
    rw [List.append_nil] at split
    cases split
    rw [h, List.append_nil]
    exact .finished length
  · cases hrest
    rw [h]
    exact .waiting call split length
  · cases hrest
    rw [h]
    exact .failed split length

/-- A run that waits goes on with its records when its insert settles. -/
theorem Progress.resume {run : Run} {call : Caller σ}
    (h : Progress filename entries marks (.waiting run call))
    (outcome : Except Thrown Identifier) (s : Seeder) (w : σ) :
    Progress filename entries (marks ++ (resume call run outcome s w).marks)
      (Overlap.resume call run outcome s w).stage := by
  cases h with
  | @waiting done rest entry ids _ split length =>
    cases outcome with
    | error e =>
      rw [resume_error, List.append_assoc]
      exact .failed split length
    | ok id =>
      have hsplit : entries = (done ++ [entry]) ++ rest := by rw [split, List.append_assoc]; rfl
      have hlength : (ids ++ [id]).length = (done ++ [entry]).length := by simp [length]
      have hp := progress_proceed hsplit hlength filename call (s.register filename entry.1 id) w
      rw [woven_append length] at hp
      rw [resume_ok]
      simpa [woven, Mark.ofAnswers] using hp

/-! ### Runs among others -/

/-- What a run does whose file was loaded in the given state: it fails, or the records that it got
there are what it makes progress with. -/
inductive Conducted (source : Source σ) (st : State σ) (filename : String) (decoder : Decoder σ) :
    List Mark → Stage σ → Prop
  | unloaded {e : Thrown} {w : σ}
      (load : loadRecords source filename decoder (some st.seeder.baseDir) st.seeder.names
        st.world = (.error e, w)) :
      Conducted source st filename decoder [] (.ended (.error e))
  | loaded {records : Records} {w : σ} {marks : List Mark} {stage : Stage σ}
      (load : loadRecords source filename decoder (some st.seeder.baseDir) st.seeder.names
        st.world = (.ok records, w))
      (progress : Progress filename records.entries marks stage) :
      Conducted source st filename decoder marks stage

section answers

variable {records : Records} {done rest : List (String × Value)} {entry : String × Value}
  {ids : List Identifier} {e : Thrown} {dir : Option String} {names : Registry} {w w' : σ}
  {new : List Call}

theorem ofAnswers_finished (asked : LoadCalls source filename decoder dir names w new)
    (yields : LoadYields source filename decoder dir names w records w')
    (length : ids.length = records.entries.length) :
    Mark.ofAnswers (Call.answers [] (new ++ Seeder.insertCalls records.entries ids)) =
      woven records.entries ids := by
  have hanswers : Call.answers (records.entries ++ [])
      (Seeder.insertCalls records.entries ids ++ []) = _ := Seeder.answers_insertCalls length []
  rw [List.append_nil, List.append_nil, Call.answers, List.append_nil] at hanswers
  rw [asked.answers_of_yields yields, hanswers]
  rfl

theorem ofAnswers_stopped (asked : LoadCalls source filename decoder dir names w new)
    (yields : LoadYields source filename decoder dir names w records w')
    (split : records.entries = done ++ entry :: rest) (length : ids.length = done.length) :
    Mark.ofAnswers (Call.answers []
        (new ++ (Seeder.insertCalls done ids ++ [.insert entry.2 (.error e)]))) =
      woven done ids ++ [.called entry, .settled entry (.error e)] := by
  rw [asked.answers_of_yields yields, split, Seeder.answers_insertCalls length, Mark.ofAnswers,
    List.flatMap_append]
  rfl

end answers

theorem conducted_populate (source : Source σ) (filename : String) (decoder : Decoder σ)
    (insert : Inserter σ) (st : State σ) :
    ∃ turn, (Step.populate filename decoder insert).perform source st = st.join turn ∧
      Conducted source st filename decoder turn.marks turn.stage := by
  obtain ⟨r, s, calls, w, hends, he⟩ :=
    Seeder.exists_ending source filename decoder insert st.seeder [] st.world
  refine ⟨_, by rw [Step.perform, hends.2], ?_⟩
  rw [List.nil_append]
  cases he with
  | unloaded fails load asked =>
    have hnone := asked.answers_of_fails fails [] []
    rw [List.append_nil] at hnone
    rw [hnone]
    exact .unloaded load
  | finished yields asked each =>
    rw [ofAnswers_finished asked yields each.length]
    exact .loaded yields.run (.finished each.length)
  | stopped yields asked fails =>
    obtain ⟨⟨rest, hsplit⟩, w₂, hdone, -⟩ := fails.split
    rw [ofAnswers_stopped asked yields hsplit hdone.length]
    exact .loaded yields.run (.failed hsplit hdone.length)

/-- A step that begins a run gives it its first turn. -/
theorem exists_conducted (source : Source σ) {step : Step σ}
    (h : step.file? = some (filename, decoder)) (st : State σ) :
    ∃ turn, step.perform source st = st.join turn ∧
      Conducted source st filename decoder turn.marks turn.stage := by
  cases step with
  | setDir dir => cases h
  | settle i outcome => cases h
  | meanwhile change => cases h
  | populate filename decoder insert =>
    cases h
    exact conducted_populate source _ _ insert st
  | start filename decoder call =>
    cases h
    rcases Action.run_cases (loadRecords source filename decoder (some st.seeder.baseDir)
      st.seeder.names) st.world with ⟨records, w', h⟩ | ⟨e, w', h⟩
    · have hsplit : records.entries = [] ++ records.entries := rfl
      have hlength : [].length = ([] : List (String × Value)).length := rfl
      exact ⟨_, start_loaded call h,
        .loaded h (progress_proceed hsplit hlength filename call _ w')⟩
    · exact ⟨_, start_unloaded call h, .unloaded h⟩

/-! ### What belongs to one run -/

def own {α : Type} (i : Nat) (tagged : List (Nat × α)) : List α :=
  (tagged.filter (·.1 = i)).map Prod.snd

section own

variable {α : Type} (i : Nat)

theorem own_append (a b : List (Nat × α)) : own i (a ++ b) = own i a ++ own i b := by
  simp [own]

theorem own_tagged (items : List α) : own i (items.map fun a => (i, a)) = items := by
  induction items with
  | nil => rfl
  | cons a items ih => simpa [own] using ih

theorem own_tagged_ne {j : Nat} (h : j ≠ i) (items : List α) :
    own i (items.map fun a => (j, a)) = [] := by
  simp [own, h]

end own

namespace State

/-- What is seen of a run. -/
def trace (st : State σ) (i : Nat) : List Mark := own i st.events

/-- Only runs that have begun are seen. -/
def Sound (st : State σ) : Prop := ∀ e ∈ st.events, e.1 < st.runs.length

theorem sound_fresh (s : Seeder) (w : σ) : (fresh s w).Sound := nofun

theorem Sound.trace_eq_nil (h : st.Sound) : st.trace st.runs.length = [] := by
  rw [trace, own, List.map_eq_nil_iff, List.filter_eq_nil_iff]
  intro e he heq
  exact Nat.ne_of_lt (h e he) (of_decide_eq_true heq)

theorem trace_join {i : Nat} (hi : i < st.runs.length) (turn : Turn σ) :
    (st.join turn).trace i = st.trace i := by
  rw [trace, join, own_append, own_tagged_ne i (Nat.ne_of_gt hi), List.append_nil, trace]

theorem runs_join {i : Nat} (hi : i < st.runs.length) (turn : Turn σ) :
    (st.join turn).runs[i]? = st.runs[i]? := List.getElem?_append_left hi

theorem Sound.trace_joined (h : st.Sound) (turn : Turn σ) :
    (st.join turn).trace st.runs.length = turn.marks := by
  have hnil := h.trace_eq_nil
  rw [trace] at hnil
  rw [trace, join, own_append, own_tagged, hnil, List.nil_append]

theorem runs_joined (turn : Turn σ) : (st.join turn).runs[st.runs.length]? = some turn.stage := by
  simp [join]

theorem trace_take (i : Nat) (turn : Turn σ) :
    (st.take i turn).trace i = st.trace i ++ turn.marks := by
  rw [trace, take, own_append, own_tagged, trace]

theorem trace_take_ne {i j : Nat} (h : j ≠ i) (turn : Turn σ) :
    (st.take j turn).trace i = st.trace i := by
  rw [trace, take, own_append, own_tagged_ne i h, List.append_nil, trace]

theorem runs_take {i : Nat} (hi : i < st.runs.length) (turn : Turn σ) :
    (st.take i turn).runs[i]? = some turn.stage := List.getElem?_set_self hi

theorem runs_take_ne {i j : Nat} (h : j ≠ i) (turn : Turn σ) :
    (st.take j turn).runs[i]? = st.runs[i]? := List.getElem?_set_ne h

end State

theorem sound_perform (source : Source σ) (step : Step σ) (h : st.Sound) :
    (step.perform source st).Sound := by
  rcases perform_cases source step st with
    ⟨turn, hp, -⟩ | ⟨i, outcome, run, call, -, hi, hp⟩ | ⟨s, w, hp, -⟩
  · rw [hp]
    intro e he
    rw [State.join, List.length_append, List.length_singleton]
    rcases List.mem_append.1 he with he | he
    · exact Nat.lt_succ_of_lt (h e he)
    · obtain ⟨m, -, rfl⟩ := List.mem_map.1 he
      exact Nat.lt_succ_self _
  · rw [hp]
    intro e he
    rw [State.take, List.length_set]
    rcases List.mem_append.1 he with he | he
    · exact h e he
    · obtain ⟨m, -, rfl⟩ := List.mem_map.1 he
      exact (List.getElem?_eq_some_iff.1 hi).1
  · rw [hp]
    exact h

theorem sound_performAll (source : Source σ) (steps : List (Step σ)) (h : st.Sound) :
    (performAll source steps st).Sound := by
  induction steps generalizing st with
  | nil => exact h
  | cons step steps ih => exact ih (sound_perform source step h)

/-- Of the runs there are, a step changes only the one whose insert settles. -/
theorem perform_other (source : Source σ) {step : Step σ} {i : Nat} (hi : i < st.runs.length)
    (hs : ∀ outcome, step ≠ .settle i outcome) :
    (step.perform source st).runs[i]? = st.runs[i]? ∧
      (step.perform source st).trace i = st.trace i := by
  rcases perform_cases source step st with
    ⟨turn, h, -⟩ | ⟨j, outcome, run, call, rfl, -, h⟩ | ⟨s, w, h, -⟩
  · rw [h]
    exact ⟨State.runs_join hi turn, State.trace_join hi turn⟩
  · have hj : j ≠ i := by
      rintro rfl
      exact hs outcome rfl
    rw [h]
    exact ⟨State.runs_take_ne hj _, State.trace_take_ne hj _⟩
  · rw [h]
    exact ⟨rfl, rfl⟩

/-- Run `i` has come so far with the file that it began with in another state. -/
def Follows (source : Source σ) (st₀ : State σ) (filename : String) (decoder : Decoder σ)
    (st : State σ) (i : Nat) : Prop :=
  ∃ stage, st.runs[i]? = some stage ∧ Conducted source st₀ filename decoder (st.trace i) stage

section follows

variable {st₀ : State σ} {i : Nat}

theorem Follows.perform (h : Follows source st₀ filename decoder st i) (step : Step σ) :
    Follows source st₀ filename decoder (step.perform source st) i := by
  obtain ⟨stage, hstage, hc⟩ := h
  have hi : i < st.runs.length := (List.getElem?_eq_some_iff.1 hstage).1
  by_cases hs : ∃ outcome, step = .settle i outcome
  · obtain ⟨outcome, rfl⟩ := hs
    cases stage with
    | ended result =>
      have hperform : (Step.settle i outcome).perform source st = st := by
        simp only [Step.perform, hstage]
      rw [hperform]
      exact ⟨_, hstage, hc⟩
    | waiting run call =>
      have hperform : (Step.settle i outcome).perform source st =
          st.take i (resume call run outcome st.seeder st.world) := by
        simp only [Step.perform, hstage]
      rw [hperform]
      refine ⟨_, State.runs_take hi _, ?_⟩
      rw [State.trace_take]
      generalize st.trace i = marks at hc
      cases hc with
      | loaded load progress => exact .loaded load (progress.resume outcome _ _)
  · obtain ⟨hruns, htrace⟩ := perform_other source hi fun outcome h => hs ⟨outcome, h⟩
    exact ⟨stage, by rw [hruns, hstage], by rw [htrace]; exact hc⟩

theorem Follows.called_prefix (h : Follows source st₀ filename decoder st i) (records : Records)
    (w : σ) (hl : loadRecords source filename decoder (some st₀.seeder.baseDir) st₀.seeder.names
      st₀.world = (.ok records, w)) : (st.trace i).filterMap Mark.called? <+: records.entries := by
  obtain ⟨stage, -, hc⟩ := h
  generalize st.trace i = marks at hc
  cases hc with
  | unloaded load => cases load.symm.trans hl
  | loaded load progress =>
    cases load.symm.trans hl
    exact progress.called_prefix

theorem Follows.settled_prefix (h : Follows source st₀ filename decoder st i) :
    ∃ inFlight, inFlight.length ≤ 1 ∧ (st.trace i).filterMap Mark.called? =
      (st.trace i).filterMap Mark.settled? ++ inFlight := by
  obtain ⟨stage, -, hc⟩ := h
  generalize st.trace i = marks at hc
  cases hc with
  | unloaded load => exact ⟨[], Nat.zero_le 1, rfl⟩
  | loaded load progress => exact progress.settled_prefix

theorem Follows.performAll (h : Follows source st₀ filename decoder st i) (steps : List (Step σ)) :
    Follows source st₀ filename decoder (performAll source steps st) i := by
  induction steps generalizing st with
  | nil => exact h
  | cons step steps ih => exact ih (h.perform step)

end follows

/-- A run that begins goes on with its own records through all later steps. -/
theorem follows_performAll (source : Source σ) (h : st.Sound) {step : Step σ}
    (hf : step.file? = some (filename, decoder)) (after : List (Step σ)) :
    Follows source st filename decoder (performAll source (step :: after) st) st.runs.length := by
  obtain ⟨turn, hp, hc⟩ := exists_conducted source hf st
  have hfirst : Follows source st filename decoder (step.perform source st) st.runs.length := by
    rw [hp]
    exact ⟨turn.stage, State.runs_joined turn, by rw [h.trace_joined]; exact hc⟩
  exact hfirst.performAll after

end Overlap

end Seedbed
