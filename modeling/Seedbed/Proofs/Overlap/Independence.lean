import Seedbed.Proofs.Overlap.Runs

/-! A run that fails affects no other run. A failure only adds to the log, and a seeder never reads
its log, so all other runs go on as if the failed insert were still in flight. -/

namespace Seedbed

namespace Seeder

variable {σ α β : Type}

/-- Seeders that differ at most in their logs. -/
structure Alike (s t : Seeder) : Prop where
  filenames : s.filenames = t.filenames
  baseDir : s.baseDir = t.baseDir
  names : s.names = t.names

theorem Alike.refl (s : Seeder) : Alike s s := ⟨rfl, rfl, rfl⟩

theorem alike_noteFailure (s : Seeder) (filename label : String) (e : Thrown) :
    Alike (s.noteFailure filename label e) s := ⟨rfl, rfl, rfl⟩

section alike

variable {s t : Seeder} (h : Alike s t)

include h

theorem Alike.noteFailure (filename label : String) (e : Thrown) :
    Alike (s.noteFailure filename label e) (t.noteFailure filename label e) :=
  ⟨h.filenames, h.baseDir, h.names⟩

theorem Alike.register (filename label : String) (id : Identifier) :
    Alike (s.register filename label id) (t.register filename label id) where
  filenames := by simp [h.filenames]
  baseDir := by simp [h.baseDir]
  names := by simp [h.names]

theorem Alike.loaded (filename : String) : Alike (s.loaded filename) (t.loaded filename) :=
  ⟨congrArg (· ++ [filename]) h.filenames, h.baseDir, h.names⟩

theorem Alike.loadFailed (filename : String) (e : Thrown) :
    Alike (s.loadFailed filename e) (t.loadFailed filename e) :=
  ⟨h.filenames, h.baseDir, h.names⟩

end alike

def LogBlind (a : Action (Seeder × σ) α) : Prop :=
  ∀ s t w, Alike s t → ∃ r s' t' w',
    a (s, w) = (r, (s', w')) ∧ a (t, w) = (r, (t', w')) ∧ Alike s' t'

theorem LogBlind.bind {a : Action (Seeder × σ) α} {f : α → Action (Seeder × σ) β} (h : LogBlind a)
    (hf : ∀ x, LogBlind (f x)) : LogBlind (a >>= f) := by
  intro s t w hst
  obtain ⟨r, s', t', w', hs, ht, hst'⟩ := h s t w hst
  cases r with
  | error e => exact ⟨.error e, s', t', w', Action.bind_error hs, Action.bind_error ht, hst'⟩
  | ok x =>
    rw [Action.bind_ok hs, Action.bind_ok ht]
    exact hf x s' t' w' hst'

theorem logBlind_pure (x : α) : LogBlind (pure x : Action (Seeder × σ) α) :=
  fun s t w h => ⟨.ok x, s, t, w, rfl, rfl, h⟩

theorem logBlind_load (source : Source σ) (filename : String) (decoder : Decoder σ) :
    LogBlind (load source filename decoder) := by
  intro s t w h
  rcases Action.run_cases (loadRecords source filename decoder (some s.baseDir) s.names) w with
    ⟨records, w', hs⟩ | ⟨e, w', hs⟩
  · have ht := hs
    rw [h.baseDir, h.names] at ht
    exact ⟨_, _, _, _, load_ok hs, load_ok ht, h.loaded filename⟩
  · have ht := hs
    rw [h.baseDir, h.names] at ht
    exact ⟨_, _, _, _, load_error hs, load_error ht, h.loadFailed filename e⟩

theorem logBlind_insertAll (filename : String) (insert : Inserter σ)
    (entries : List (String × Value)) : LogBlind (insertAll filename insert entries) := by
  induction entries with
  | nil => exact logBlind_pure []
  | cons entry entries ih =>
    obtain ⟨label, record⟩ := entry
    intro s t w h
    rcases Action.run_cases (insert s.names record) w with ⟨id, w', hs⟩ | ⟨e, w', hs⟩
    · have ht := hs
      rw [h.names] at ht
      rw [insertAll_cons_ok hs, insertAll_cons_ok ht]
      exact ih.bind (fun ids => logBlind_pure _) _ _ w' (h.register filename label id)
    · have ht := hs
      rw [h.names] at ht
      exact ⟨_, _, _, _, insertAll_cons_error hs, insertAll_cons_error ht,
        h.noteFailure filename label e⟩

theorem logBlind_populate (source : Source σ) (filename : String) (decoder : Decoder σ)
    (insert : Inserter σ) : LogBlind (populate source filename decoder insert) :=
  (logBlind_load source filename decoder).bind fun records =>
    logBlind_insertAll filename insert records.entries

theorem logBlind_start (source : Source σ) (filename : String) (decoder : Decoder σ) :
    LogBlind (Run.start source filename decoder) :=
  (logBlind_load source filename decoder).bind fun _ => logBlind_pure _

end Seeder

namespace Overlap

variable {σ : Type} {source : Source σ} {st : State σ}

structure Turn.Alike (a b : Turn σ) : Prop where
  stage : a.stage = b.stage
  marks : a.marks = b.marks
  seeder : Seeder.Alike a.seeder b.seeder
  world : a.world = b.world

section turns

variable {s t : Seeder} (h : Seeder.Alike s t)

include h

theorem alike_proceed (call : Caller σ) (run : Run) (w : σ) :
    (proceed call run s w).Alike (proceed call run t w) := by
  obtain ⟨filename, ids, pending⟩ := run
  cases pending with
  | nil => exact ⟨rfl, rfl, h, rfl⟩
  | cons entry rest =>
    rcases Action.run_cases (call s.names entry.2) w with ⟨⟨⟩, w', hs⟩ | ⟨e, w', hs⟩
    · have ht := hs
      rw [h.names] at ht
      rw [proceed_ok hs, proceed_ok ht]
      exact ⟨rfl, rfl, h, rfl⟩
    · have ht := hs
      rw [h.names] at ht
      rw [proceed_error hs, proceed_error ht]
      exact ⟨rfl, rfl, h.noteFailure filename entry.1 e, rfl⟩

theorem alike_resume (call : Caller σ) (run : Run) (outcome : Except Thrown Identifier) (w : σ) :
    (resume call run outcome s w).Alike (resume call run outcome t w) := by
  obtain ⟨filename, ids, pending⟩ := run
  cases pending with
  | nil => exact ⟨rfl, rfl, h, rfl⟩
  | cons entry rest =>
    cases outcome with
    | error e => exact ⟨rfl, rfl, h.noteFailure filename entry.1 e, rfl⟩
    | ok id =>
      have hp := alike_proceed (h.register filename entry.1 id) call
        { filename, ids := ids ++ [id], pending := rest } w
      rw [resume_ok, resume_ok]
      exact ⟨hp.stage, congrArg (_ :: ·) hp.marks, hp.seeder, hp.world⟩

end turns

/-- A turn in which the insert of a run fails changes nothing but the run and the log. -/
theorem alike_resume_error (call : Caller σ) (run : Run) (e : Thrown) (s : Seeder) (w : σ) :
    Seeder.Alike (resume call run (.error e) s w).seeder s ∧
      (resume call run (.error e) s w).world = w := by
  obtain ⟨filename, ids, pending⟩ := run
  cases pending with
  | nil => exact ⟨.refl s, rfl⟩
  | cons entry rest => exact ⟨Seeder.alike_noteFailure s filename entry.1 e, rfl⟩

/-- States that are the same but for one run and for the logs of their seeders. -/
structure AgreeApart (i : Nat) (a b : State σ) : Prop where
  seeder : Seeder.Alike a.seeder b.seeder
  world : a.world = b.world
  length : a.runs.length = b.runs.length
  runs : ∀ j ≠ i, a.runs[j]? = b.runs[j]?
  trace : ∀ j ≠ i, a.trace j = b.trace j

namespace AgreeApart

variable {i : Nat} {a b : State σ}

theorem refl (i : Nat) (st : State σ) : AgreeApart i st st :=
  ⟨.refl _, rfl, rfl, fun _ _ => rfl, fun _ _ => rfl⟩

theorem join (h : AgreeApart i a b) {x y : Turn σ} (ht : x.Alike y) :
    AgreeApart i (a.join x) (b.join y) where
  seeder := ht.seeder
  world := ht.world
  length := by simp [State.join, h.length]
  runs j hj := by
    simp only [State.join, List.getElem?_append, h.length, h.runs j hj, ht.stage]
  trace j hj := by
    have htrace := h.trace j hj
    rw [State.trace, State.trace] at htrace
    simp only [State.trace, State.join, own_append, htrace, h.length, ht.marks]

theorem take (h : AgreeApart i a b) (k : Nat) {x y : Turn σ} (ht : x.Alike y) :
    AgreeApart i (a.take k x) (b.take k y) where
  seeder := ht.seeder
  world := ht.world
  length := by simp [State.take, h.length]
  runs j hj := by
    simp only [State.take, List.getElem?_set, h.length, h.runs j hj, ht.stage]
  trace j hj := by
    have htrace := h.trace j hj
    rw [State.trace, State.trace] at htrace
    simp only [State.trace, State.take, own_append, htrace, ht.marks]

/-- States stay the same apart from a run as long as no insert of the run settles. -/
theorem perform (h : AgreeApart i a b) {step : Step σ} (hs : ∀ outcome, step ≠ .settle i outcome) :
    AgreeApart i (step.perform source a) (step.perform source b) := by
  obtain ⟨hseeder, hworld, hlength, hruns, htrace⟩ := h
  cases step with
  | setDir dir => exact ⟨⟨hseeder.filenames, rfl, hseeder.names⟩, hworld, hlength, hruns, htrace⟩
  | meanwhile change => exact ⟨hseeder, congrArg change hworld, hlength, hruns, htrace⟩
  | populate filename decoder insert =>
    obtain ⟨r, s, t, ⟨calls, w⟩, ha, hb, hst⟩ :=
      Seeder.logBlind_populate source.noting filename decoder.noting insert.noting a.seeder
        b.seeder ([], a.world) hseeder
    rw [hworld] at hb
    rw [Step.perform, Step.perform, ha, hb]
    exact join ⟨hseeder, hworld, hlength, hruns, htrace⟩ ⟨rfl, rfl, hst, rfl⟩
  | start filename decoder call =>
    obtain ⟨r, s, t, w, ha, hb, hst⟩ :=
      Seeder.logBlind_start source filename decoder a.seeder b.seeder a.world hseeder
    rw [hworld] at hb
    rw [Step.perform, Step.perform, ha, hb]
    cases r with
    | error e => exact join ⟨hseeder, hworld, hlength, hruns, htrace⟩ ⟨rfl, rfl, hst, rfl⟩
    | ok run => exact join ⟨hseeder, hworld, hlength, hruns, htrace⟩ (alike_proceed hst call run w)
  | settle k outcome =>
    have hk : k ≠ i := by
      rintro rfl
      exact hs outcome rfl
    rw [Step.perform, Step.perform, hruns k hk, hworld]
    split
    · exact take ⟨hseeder, hworld, hlength, hruns, htrace⟩ k (alike_resume hseeder _ _ _ _)
    · exact ⟨hseeder, hworld, hlength, hruns, htrace⟩

theorem performAll (h : AgreeApart i a b) {steps : List (Step σ)}
    (hs : ∀ outcome, .settle i outcome ∉ steps) :
    AgreeApart i (performAll source steps a) (performAll source steps b) := by
  induction steps generalizing a b with
  | nil => exact h
  | cons step steps ih =>
    have hstep : ∀ outcome, step ≠ .settle i outcome := by
      rintro outcome rfl
      exact hs outcome List.mem_cons_self
    exact ih (h.perform hstep) fun outcome hmem => hs outcome (List.mem_cons_of_mem _ hmem)

end AgreeApart

def State.withStage (st : State σ) (i : Nat) (stage : Stage σ) (log : List Log.Line) : State σ :=
  { st with seeder := { st.seeder with log }, runs := st.runs.set i stage }

/-- To the other runs it is the same at which stage a run is and what was logged. -/
theorem agreeApart_performAll_withStage (source : Source σ) (st : State σ) (i : Nat)
    (stage : Stage σ) (log : List Log.Line) {after : List (Step σ)}
    (h : ∀ outcome, .settle i outcome ∉ after) :
    AgreeApart i (performAll source after (st.withStage i stage log))
      (performAll source after st) := by
  have hfirst : AgreeApart i (st.withStage i stage log) st :=
    ⟨⟨rfl, rfl, rfl⟩, rfl, List.length_set, fun j hj => List.getElem?_set_ne hj.symm,
      fun _ _ => rfl⟩
  exact hfirst.performAll h

theorem agreeApart_fail (source : Source σ) (st : State σ) (i : Nat) (e : Thrown) :
    AgreeApart i ((Step.settle i (.error e)).perform source st) st := by
  rw [Step.perform]
  split
  · rename_i run call h
    obtain ⟨hseeder, hworld⟩ := alike_resume_error call run e st.seeder st.world
    exact ⟨hseeder, hworld, List.length_set, fun j hj => State.runs_take_ne hj.symm _,
      fun j hj => State.trace_take_ne hj.symm _⟩
  · exact .refl i st

theorem agreeApart_performAll_fail (source : Source σ) (st : State σ) (i : Nat) (e : Thrown)
    {after : List (Step σ)} (h : ∀ outcome, .settle i outcome ∉ after) :
    AgreeApart i (performAll source (.settle i (.error e) :: after) st)
      (performAll source after st) :=
  (agreeApart_fail source st i e).performAll h

end Overlap

end Seedbed
