import Seedbed.Proofs.Overlap.Runs

/-! Runs that no other run comes between. However the outcomes of the inserts are delivered, at once
or by promises, such a run ends as if its file had been populated at once by inserts with the same
outcomes. -/

namespace Seedbed

variable {σ : Type}

/-! ### The ways of a delivery -/

/-- How the outcome of an insert is delivered: by the call itself, which returns or throws, or by a
promise, which is fulfilled or rejected. -/
inductive Way
  | atOnce
  | byPromise

namespace Way

def deliver : Way → Except Thrown Identifier → Delivery
  | atOnce, .ok id => .returned id
  | atOnce, .error e => .threw e
  | byPromise, outcome => .promised outcome

@[simp] theorem settled_deliver (way : Way) (outcome : Except Thrown Identifier) :
    (way.deliver outcome).settled = outcome := by
  cases way with
  | atOnce => cases outcome <;> rfl
  | byPromise => rfl

end Way

def Delivery.way : Delivery → Way
  | promised _ => .byPromise
  | _ => .atOnce

theorem Delivery.deliver_settled (delivery : Delivery) :
    delivery.way.deliver delivery.settled = delivery := by
  cases delivery <;> rfl

def Inserter.delivered (insert : Inserter σ) (way : Registry → Value → σ → Way) :
    AsyncInserter σ :=
  fun names record w =>
    ((way names record w).deliver (insert names record w).1, (insert names record w).2)

theorem Inserter.settled_delivered (insert : Inserter σ) (way : Registry → Value → σ → Way) :
    (insert.delivered way).settled = insert := by
  funext names record w
  exact Prod.ext (Way.settled_deliver _ _) rfl

/-- Every insert function delivers its outcomes in such ways. -/
theorem AsyncInserter.delivered_settled (insert : AsyncInserter σ) :
    (insert.settled.delivered fun names record w => (insert names record w).1.way) = insert := by
  funext names record w
  exact Prod.ext (Delivery.deliver_settled _) rfl

namespace Overlap

/-! ### The steps of a run alone -/

/-- The call of an insert function that may answer with a promise: it throws, or its insert is in
flight until it settles. -/
def callerOf (insert : AsyncInserter σ) : Caller σ := fun names record w =>
  match insert names record w with
  | (.threw e, w) => (.error e, w)
  | (_, w) => (.ok (), w)

/-- The turn, with more seen before it. -/
def Turn.after (turn : Turn σ) (before : List Mark) : Turn σ :=
  { turn with marks := before ++ turn.marks }

/-- The state with one run only, of which this much was seen up to its last turn. -/
def State.alone (turn : Turn σ) : State σ where
  seeder := turn.seeder
  world := turn.world
  runs := [turn.stage]
  events := turn.marks.map (0, ·)

/-- Settlements bring a run that is alone from one turn to the other, whatever was seen before. -/
def Reaches (source : Source σ) (turn last : Turn σ) : Prop :=
  ∀ before : List Mark, ∃ outcomes : List (Except Thrown Identifier),
    performAll source (outcomes.map (.settle 0)) (.alone (turn.after before)) =
      .alone (last.after before)

section reaches

variable {source : Source σ} {insert : AsyncInserter σ} {call : Caller σ} {run : Run}
  {turn last : Turn σ} {filename : String} {entry : String × Value}
  {pending done : List (String × Value)} {ids new : List Identifier} {id : Identifier} {e : Thrown}
  {names : Registry} {record : Value} {s : Seeder} {w w' : σ}

theorem Reaches.refl (source : Source σ) (turn : Turn σ) : Reaches source turn turn :=
  fun _ => ⟨[], rfl⟩

theorem Turn.after_after (turn : Turn σ) (a b : List Mark) :
    (turn.after b).after a = turn.after (a ++ b) := by
  rw [after, after, after, List.append_assoc]

theorem Reaches.after (h : Reaches source turn last) (marks : List Mark) :
    Reaches source (turn.after marks) (last.after marks) := by
  intro before
  rw [Turn.after_after, Turn.after_after]
  exact h (before ++ marks)

theorem take_alone (turn next : Turn σ) :
    (State.alone turn).take 0 next = .alone (next.after turn.marks) := by
  simp [State.take, State.alone, Turn.after]

theorem Reaches.of_resume {marks : List Mark} (outcome : Except Thrown Identifier)
    (h : Reaches source (resume call run outcome s w) last) :
    Reaches source { stage := .waiting run call, marks, seeder := s, world := w }
      (last.after marks) := by
  intro before
  obtain ⟨outcomes, houtcomes⟩ := h (before ++ marks)
  have hperform : (Step.settle 0 outcome).perform source
      (.alone { stage := .waiting run call, marks := before ++ marks, seeder := s, world := w }) =
        .alone ((resume call run outcome s w).after (before ++ marks)) := take_alone _ _
  refine ⟨outcome :: outcomes, ?_⟩
  rw [Turn.after_after, ← houtcomes, ← hperform]
  rfl

theorem callerOf_ok (h : insert.settled names record w = (.ok id, w')) :
    callerOf insert names record w = (.ok (), w') := by
  cases hinsert : insert names record w with
  | mk delivery w₁ =>
    rw [AsyncInserter.settled, hinsert] at h
    rw [callerOf, hinsert]
    cases delivery <;> cases h <;> rfl

theorem callerOf_error (h : insert.settled names record w = (.error e, w')) :
    callerOf insert names record w = (.error e, w') ∨
      callerOf insert names record w = (.ok (), w') := by
  cases hinsert : insert names record w with
  | mk delivery w₁ =>
    rw [AsyncInserter.settled, hinsert] at h
    rw [callerOf, hinsert]
    cases delivery with
    | returned id => cases h
    | threw e =>
      cases h
      exact .inl rfl
    | promised outcome =>
      cases h
      exact .inr rfl

theorem Reaches.of_settled_ok (h : insert.settled s.names entry.2 w = (.ok id, w'))
    (hrest : Reaches source (proceed (callerOf insert) { filename, ids := ids ++ [id], pending }
      (s.register filename entry.1 id) w') last) :
    Reaches source (proceed (callerOf insert) { filename, ids, pending := entry :: pending } s w)
      (last.after [.called entry, .settled entry (.ok id)]) := by
  rw [proceed_ok (callerOf_ok h)]
  have hresume : Reaches source
      (resume (callerOf insert) { filename, ids, pending := entry :: pending } (.ok id) s w')
      (last.after [.settled entry (.ok id)]) := by
    rw [resume_ok]
    exact hrest.after [.settled entry (.ok id)]
  exact hresume.of_resume (.ok id)

theorem Reaches.of_settled_error (h : insert.settled s.names entry.2 w = (.error e, w'))
    (pending : List (String × Value)) :
    Reaches source (proceed (callerOf insert) { filename, ids, pending := entry :: pending } s w)
      { stage := .ended (.error (.fault (Fault.insertFailed filename entry.1 e)))
        marks := [.called entry, .settled entry (.error e)]
        seeder := s.noteFailure filename entry.1 e, world := w' } := by
  rcases callerOf_error h with hcall | hcall
  · rw [proceed_error hcall]
    exact .refl source _
  · have hresume : Reaches source
        (resume (callerOf insert) { filename, ids, pending := entry :: pending } (.error e) s w')
        _ := .refl source _
    rw [proceed_ok hcall]
    exact hresume.of_resume (.error e)

theorem reaches_of_each {names : Registry}
    (h : Action.Each (Seeder.registering insert.settled) pending (s.names, w) new (names, w')) :
    Reaches source (proceed (callerOf insert) { filename, ids, pending } s w)
      { stage := .ended (.ok (ids ++ new)), marks := woven pending new
        seeder := s.registerAll filename ((pending.map Prod.fst).zip new), world := w' } := by
  -- the identifiers so far stay in front, and each insert goes on from the seeder of the last
  induction pending generalizing ids s w new with
  | nil =>
    cases h
    rw [List.append_nil]
    exact .refl source _
  | cons entry pending ih =>
    cases h with
    | @cons _ _ id new _ _ _ head tail =>
      obtain ⟨w₁, hi, rfl⟩ := Seeder.exists_of_registering_ok head
      rw [← Seeder.register_names filename] at tail
      rw [List.append_cons]
      exact .of_settled_ok hi (ih tail)

theorem reaches_of_failsAt {names : Registry}
    (h : Action.FailsAt (Seeder.registering insert.settled) pending (s.names, w) done entry new e
      (names, w')) :
    Reaches source (proceed (callerOf insert) { filename, ids, pending } s w)
      { stage := .ended (.error (.fault (Fault.insertFailed filename entry.1 e)))
        marks := woven done new ++ [.called entry, .settled entry (.error e)]
        seeder := (s.registerAll filename ((done.map Prod.fst).zip new)).noteFailure filename
          entry.1 e
        world := w' } := by
  induction pending generalizing ids s w done new with
  | nil => cases h
  | cons next pending ih =>
    cases h with
    | here head =>
      obtain ⟨w₁, hi, hst⟩ := Seeder.exists_of_registering_error head
      cases hst
      exact .of_settled_error hi pending
    | @later _ _ done _ id new _ _ _ _ head tail =>
      obtain ⟨w₁, hi, rfl⟩ := Seeder.exists_of_registering_ok head
      rw [← Seeder.register_names filename] at tail
      exact .of_settled_ok hi (ih tail)

theorem Reaches.exists_outcomes {step : Step σ} (h : Reaches source turn last)
    (hstep : step.perform source (.fresh s w) = .alone turn) :
    ∃ outcomes : List (Except Thrown Identifier),
      performAll source (step :: outcomes.map (.settle 0)) (.fresh s w) = .alone last := by
  obtain ⟨outcomes, houtcomes⟩ := h []
  refine ⟨outcomes, ?_⟩
  rw [performAll, List.foldl_cons, hstep]
  exact houtcomes

end reaches

/-- Steps that no other run comes between do what a call that populates the file at once does. -/
theorem exists_steps_populate (source : Source σ) (filename : String) (decoder : Decoder σ)
    (insert : AsyncInserter σ) (s : Seeder) (w : σ) :
    ∃ outcomes : List (Except Thrown Identifier),
      performAll source (.start filename decoder (callerOf insert) :: outcomes.map (.settle 0))
          (.fresh s w) =
        (Step.populate filename decoder insert.settled).perform source (.fresh s w) := by
  obtain ⟨r, s', new, w', hends, hending⟩ :=
    Seeder.exists_ending source filename decoder insert.settled s [] w
  have hpopulate : (Step.populate filename decoder insert.settled).perform source (.fresh s w) =
      .alone { stage := .ended r, marks := Mark.ofAnswers (Call.answers [] new), seeder := s'
               world := w' } := by
    rw [Step.perform, State.fresh, hends.2]
    rfl
  rw [hpopulate]
  cases hending with
  | unloaded fails load asked =>
    have hnone := asked.answers_of_fails fails [] []
    rw [List.append_nil] at hnone
    rw [hnone]
    exact (Reaches.refl source _).exists_outcomes (start_unloaded (callerOf insert) load)
  | @finished records _ _ _ w₁ _ yields asked each =>
    have hstart : (Step.start filename decoder (callerOf insert)).perform source (.fresh s w) =
        .alone (proceed (callerOf insert) { filename, pending := records.entries }
          (s.loaded filename) w₁) := start_loaded (callerOf insert) yields.run
    rw [ofAnswers_finished asked yields each.length]
    exact (reaches_of_each (s := s.loaded filename) each).exists_outcomes hstart
  | @stopped records _ _ _ _ _ _ _ w₁ _ yields asked fails =>
    have hstart : (Step.start filename decoder (callerOf insert)).perform source (.fresh s w) =
        .alone (proceed (callerOf insert) { filename, pending := records.entries }
          (s.loaded filename) w₁) := start_loaded (callerOf insert) yields.run
    obtain ⟨⟨rest, hsplit⟩, w₂, hdone, -⟩ := fails.split
    rw [ofAnswers_stopped asked yields hsplit hdone.length]
    exact (reaches_of_failsAt (s := s.loaded filename) fails).exists_outcomes hstart

/-- A call that waits for what `delivered` promises does what the call with `insert` does that waits
for nothing. -/
structure Agrees (source : Source σ) (filename : String) (decoder : Decoder σ)
    (insert : Inserter σ) (delivered : AsyncInserter σ) (s : Seeder) (w : σ) : Prop where
  /-- They end with the same identifiers or the same error, and leave the same names, filenames and
  log lines. -/
  run : Seeder.populateAsync source filename decoder delivered (s, w) =
    Seeder.populate source filename decoder insert (s, w)
  /-- They hand over the same records in the same order, and so are all their calls the same. -/
  calls : Seeder.populateAsync source.noting filename decoder.noting delivered.noting
      (s, ([], w)) =
    Seeder.populate source.noting filename decoder.noting insert.noting (s, ([], w))
  /-- Step by step, with each promise settled while the run waits for it, nothing else is seen. -/
  steps : ∃ outcomes : List (Except Thrown Identifier),
    performAll source (.start filename decoder (callerOf delivered) :: outcomes.map (.settle 0))
        (.fresh s w) =
      (Step.populate filename decoder insert).perform source (.fresh s w)

/-- A call that runs alone agrees with the one that waits for nothing, whatever the outcomes of the
inserts are and in whatever way each of them is delivered. -/
theorem populateAsync_agrees (source : Source σ) (filename : String) (decoder : Decoder σ)
    (s : Seeder) (w : σ) :
    (∀ (insert : Inserter σ) (way : Registry → Value → σ → Way),
      Agrees source filename decoder insert (insert.delivered way) s w) ∧
    ∀ delivered : AsyncInserter σ, ∃ way, delivered = delivered.settled.delivered way := by
  refine ⟨fun insert way => ?_, fun delivered => ⟨_, delivered.delivered_settled.symm⟩⟩
  have hsettled := insert.settled_delivered way
  constructor
  · rw [Seeder.populateAsync_eq, hsettled]
  · rw [Seeder.populateAsync_eq, AsyncInserter.settled_noting, hsettled]
  · obtain ⟨outcomes, houtcomes⟩ :=
      exists_steps_populate source filename decoder (insert.delivered way) s w
    rw [hsettled] at houtcomes
    exact ⟨outcomes, houtcomes⟩

end Overlap

end Seedbed
