import Seedbed.Proofs.Seeder.Session

/-! Runs that overlap on one seeder. A run takes a turn when it begins and whenever its insert
settles; in between anything else may happen, such as turns of other runs, files populated at once
and other directories. What the runs do is written down as it can be seen from outside: which run
hands over which record, and how the insert of it turns out. -/

namespace Seedbed

/-- Calls an insert function that answers later, unless it throws. -/
abbrev Caller (σ : Type) := Registry → Value → Action σ Unit

namespace Overlap

variable {σ : Type}

inductive Mark
  | called (entry : String × Value)
  | settled (entry : String × Value) (outcome : Except Thrown Identifier)

namespace Mark

def called? : Mark → Option (String × Value)
  | called entry => some entry
  | settled _ _ => none

def settled? : Mark → Option (String × Value)
  | called _ => none
  | settled entry _ => some entry

def fulfilled? : Mark → Option (String × Identifier)
  | settled entry (.ok id) => some (entry.1, id)
  | _ => none

def ofAnswers (answers : List ((String × Value) × Except Thrown Identifier)) : List Mark :=
  answers.flatMap fun p => [called p.1, settled p.1 p.2]

end Mark

/-- A run between two steps: its insert is in flight, or it is over. -/
inductive Stage (σ : Type)
  | waiting (run : Run) (call : Caller σ)
  | ended (result : Except Thrown (List Identifier))

structure Turn (σ : Type) where
  stage : Stage σ
  marks : List Mark
  seeder : Seeder
  world : σ

/-- A run once an insert has settled. -/
def Stage.ofSettled (call : Caller σ) : Except Fault Run → Stage σ
  | .ok run => waiting run call
  | .error f => ended (.error (.fault f))

/-- A run hands over its next record, if it has one. -/
def proceed (call : Caller σ) (run : Run) (s : Seeder) (w : σ) : Turn σ :=
  match run.pending with
  | [] => { stage := .ended (.ok run.ids), marks := [], seeder := s, world := w }
  | entry :: _ =>
    match call s.names entry.2 w with
    | (.ok _, w) =>
      { stage := .waiting run call, marks := [.called entry], seeder := s, world := w }
    | (.error e, w) =>
      { stage := .ofSettled call (run.settle (.error e) s).1
        marks := [.called entry, .settled entry (.error e)]
        seeder := (run.settle (.error e) s).2
        world := w }

def resume (call : Caller σ) (run : Run) (outcome : Except Thrown Identifier) (s : Seeder)
    (w : σ) : Turn σ :=
  match run.pending, run.settle outcome s with
  | [], _ => { stage := .waiting run call, marks := [], seeder := s, world := w }
  | entry :: _, (.error f, s) =>
    { stage := .ofSettled call (.error f), marks := [.settled entry outcome], seeder := s
      world := w }
  | entry :: _, (.ok run, s) =>
    let turn := proceed call run s w
    { turn with marks := .settled entry outcome :: turn.marks }

/-- A seeder with its runs, numbered in the order in which they begin. -/
structure State (σ : Type) where
  seeder : Seeder
  world : σ
  runs : List (Stage σ) := []
  events : List (Nat × Mark) := []

namespace State

def fresh (s : Seeder) (w : σ) : State σ := { seeder := s, world := w }

def join (st : State σ) (turn : Turn σ) : State σ where
  seeder := turn.seeder
  world := turn.world
  runs := st.runs ++ [turn.stage]
  events := st.events ++ turn.marks.map (st.runs.length, ·)

def take (st : State σ) (i : Nat) (turn : Turn σ) : State σ where
  seeder := turn.seeder
  world := turn.world
  runs := st.runs.set i turn.stage
  events := st.events ++ turn.marks.map (i, ·)

end State

/-- What can happen between two moments. Looking up a label changes nothing, so it is no step. -/
inductive Step (σ : Type)
  | setDir (dir : String)
  /-- A file is populated at once, and counts as a run that is over when the next step is taken. -/
  | populate (filename : String) (decoder : Decoder σ) (insert : Inserter σ)
  | start (filename : String) (decoder : Decoder σ) (call : Caller σ)
  | settle (i : Nat) (outcome : Except Thrown Identifier)
  | meanwhile (change : σ → σ)

namespace Step

def file? : Step σ → Option (String × Decoder σ)
  | populate filename decoder _ => some (filename, decoder)
  | start filename decoder _ => some (filename, decoder)
  | _ => none

def dir? : Step σ → Option String
  | setDir dir => some dir
  | _ => none

/-- Takes the step. A settlement counts only while the run waits for it. -/
def perform (source : Source σ) (st : State σ) : Step σ → State σ
  | setDir dir => { st with seeder := st.seeder.setDir dir }
  | meanwhile change => { st with world := change st.world }
  | populate filename decoder insert =>
    match Seeder.populate source.noting filename decoder.noting insert.noting
      (st.seeder, ([], st.world)) with
    | (result, (s, (calls, w))) =>
      st.join { stage := .ended result, marks := Mark.ofAnswers (Call.answers [] calls)
                seeder := s, world := w }
  | start filename decoder call =>
    match Run.start source filename decoder (st.seeder, st.world) with
    | (.ok run, (s, w)) => st.join (proceed call run s w)
    | (.error e, (s, w)) =>
      st.join { stage := .ended (.error e), marks := [], seeder := s, world := w }
  | settle i outcome =>
    match st.runs[i]? with
    | some (.waiting run call) => st.take i (resume call run outcome st.seeder st.world)
    | _ => st

end Step

def performAll (source : Source σ) (steps : List (Step σ)) (st : State σ) : State σ :=
  steps.foldl (fun st step => step.perform source st) st

theorem performAll_append (source : Source σ) (a b : List (Step σ)) (st : State σ) :
    performAll source (a ++ b) st = performAll source b (performAll source a st) :=
  List.foldl_append

/-! ### Turns -/

section turns

variable {call : Caller σ} {filename : String} {ids : List Identifier} {entry : String × Value}
  {rest : List (String × Value)} {s : Seeder} {w w' : σ} {id : Identifier} {e : Thrown}

theorem proceed_ok (h : call s.names entry.2 w = (.ok (), w')) :
    proceed call { filename, ids, pending := entry :: rest } s w =
      { stage := .waiting { filename, ids, pending := entry :: rest } call
        marks := [.called entry], seeder := s, world := w' } := by
  simp only [proceed, h]

theorem proceed_error (h : call s.names entry.2 w = (.error e, w')) :
    proceed call { filename, ids, pending := entry :: rest } s w =
      { stage := .ended (.error (.fault (Fault.insertFailed filename entry.1 e)))
        marks := [.called entry, .settled entry (.error e)]
        seeder := s.noteFailure filename entry.1 e, world := w' } := by
  simp only [proceed, h]
  rfl

/-- There is nothing to hand over, or there is, and the insert function throws or not. -/
theorem proceed_cases (call : Caller σ) (run : Run) (s : Seeder) (w : σ) :
    (run.pending = [] ∧ proceed call run s w =
      { stage := .ended (.ok run.ids), marks := [], seeder := s, world := w }) ∨
    ∃ entry rest w', run.pending = entry :: rest ∧
      ((call s.names entry.2 w = (.ok (), w') ∧ proceed call run s w =
        { stage := .waiting run call, marks := [.called entry], seeder := s, world := w' }) ∨
      ∃ e, call s.names entry.2 w = (.error e, w') ∧ proceed call run s w =
        { stage := .ended (.error (.fault (Fault.insertFailed run.filename entry.1 e)))
          marks := [.called entry, .settled entry (.error e)]
          seeder := s.noteFailure run.filename entry.1 e, world := w' }) := by
  obtain ⟨filename, ids, pending⟩ := run
  cases pending with
  | nil => exact .inl ⟨rfl, rfl⟩
  | cons entry rest =>
    rcases Action.run_cases (call s.names entry.2) w with ⟨⟨⟩, w', h⟩ | ⟨e, w', h⟩
    · exact .inr ⟨entry, rest, w', rfl, .inl ⟨h, proceed_ok h⟩⟩
    · exact .inr ⟨entry, rest, w', rfl, .inr ⟨e, h, proceed_error h⟩⟩

theorem resume_ok (call : Caller σ) (filename : String) (ids : List Identifier)
    (entry : String × Value) (rest : List (String × Value)) (id : Identifier) (s : Seeder) (w : σ) :
    resume call { filename, ids, pending := entry :: rest } (.ok id) s w =
      { proceed call { filename, ids := ids ++ [id], pending := rest }
          (s.register filename entry.1 id) w with
        marks := .settled entry (.ok id) ::
          (proceed call { filename, ids := ids ++ [id], pending := rest }
            (s.register filename entry.1 id) w).marks } := rfl

theorem resume_error (call : Caller σ) (filename : String) (ids : List Identifier)
    (entry : String × Value) (rest : List (String × Value)) (e : Thrown) (s : Seeder) (w : σ) :
    resume call { filename, ids, pending := entry :: rest } (.error e) s w =
      { stage := .ended (.error (.fault (Fault.insertFailed filename entry.1 e)))
        marks := [.settled entry (.error e)]
        seeder := s.noteFailure filename entry.1 e, world := w } := rfl

end turns

/-! ### What is registered -/

def fulfilled (marks : List Mark) : List (String × Identifier) := marks.filterMap Mark.fulfilled?

/-- A turn registers the inserts that answer in it and changes nothing else that a load reads. -/
structure Turn.Registers (s : Seeder) (turn : Turn σ) : Prop where
  names : turn.seeder.names = s.names.registered (fulfilled turn.marks)
  baseDir : turn.seeder.baseDir = s.baseDir

theorem names_proceed (call : Caller σ) (run : Run) (s : Seeder) (w : σ) :
    (proceed call run s w).seeder.names = s.names ∧
      (proceed call run s w).seeder.baseDir = s.baseDir ∧
      fulfilled (proceed call run s w).marks = [] := by
  rcases proceed_cases call run s w with ⟨-, h⟩ | ⟨entry, rest, w', -, ⟨-, h⟩ | ⟨e, -, h⟩⟩
  · rw [h]
    exact ⟨rfl, rfl, rfl⟩
  · rw [h]
    exact ⟨rfl, rfl, rfl⟩
  · rw [h]
    exact ⟨rfl, rfl, rfl⟩

theorem registers_proceed (call : Caller σ) (run : Run) (s : Seeder) (w : σ) :
    (proceed call run s w).Registers s := by
  obtain ⟨hnames, hdir, hmarks⟩ := names_proceed call run s w
  refine ⟨?_, hdir⟩
  rw [hnames, hmarks]
  rfl

theorem registers_resume (call : Caller σ) (run : Run) (outcome : Except Thrown Identifier)
    (s : Seeder) (w : σ) : (resume call run outcome s w).Registers s := by
  obtain ⟨filename, ids, pending⟩ := run
  cases pending with
  | nil => exact ⟨rfl, rfl⟩
  | cons entry rest =>
    cases outcome with
    | error e => exact ⟨rfl, rfl⟩
    | ok id =>
      have h := registers_proceed call { filename, ids := ids ++ [id], pending := rest }
        (s.register filename entry.1 id) w
      have hnames := h.names
      rw [Seeder.register_names] at hnames
      rw [resume_ok]
      exact ⟨hnames, h.baseDir.trans (Seeder.register_baseDir _ _ _ _)⟩

theorem fulfilled_ofAnswers (calls : List Call) :
    fulfilled (Mark.ofAnswers (Call.answers [] calls)) = Call.inserted [] calls := by
  rw [Call.inserted_eq, fulfilled, Mark.ofAnswers]
  induction Call.answers [] calls with
  | nil => rfl
  | cons p answers ih =>
    rw [List.flatMap_cons, List.filterMap_append, ih]
    obtain ⟨entry, answer⟩ := p
    cases answer <;> rfl

/-- An insert that answers is registered. -/
theorem names_settle {source : Source σ} {st : State σ} {i : Nat} {run : Run} {call : Caller σ}
    {entry : String × Value} {rest : List (String × Value)}
    (h : st.runs[i]? = some (.waiting run call)) (hp : run.pending = entry :: rest)
    (id : Identifier) : ((Step.settle i (.ok id)).perform source st).seeder.names =
      st.seeder.names.insert entry.1 id.toText := by
  obtain ⟨filename, ids, pending⟩ := run
  cases hp
  simp only [Step.perform, h]
  rw [resume_ok]
  exact (names_proceed _ _ _ _).1.trans (Seeder.register_names _ _ _ _)

/-- What a step adds: events, and what these register. -/
def Adds (st st' : State σ) : Prop :=
  ∃ new, st'.events = st.events ++ new ∧
    st'.seeder.names = st.seeder.names.registered (fulfilled (new.map Prod.snd))

theorem Adds.refl (st : State σ) : Adds st st := ⟨[], by simp, rfl⟩

theorem Adds.trans {a b c : State σ} (h : Adds a b) (h' : Adds b c) : Adds a c := by
  obtain ⟨new, he, hn⟩ := h
  obtain ⟨new', he', hn'⟩ := h'
  refine ⟨new ++ new', by rw [he', he, List.append_assoc], ?_⟩
  rw [hn', hn, List.map_append, fulfilled, fulfilled, fulfilled, List.filterMap_append,
    Registry.registered_append]

theorem adds_of_registers {st : State σ} {turn : Turn σ} {runs : List (Stage σ)} (i : Nat)
    (h : turn.Registers st.seeder) :
    Adds st { seeder := turn.seeder, world := turn.world, runs
              events := st.events ++ turn.marks.map (i, ·) } := by
  refine ⟨_, rfl, ?_⟩
  have hmap : (turn.marks.map fun m => (i, m)).map Prod.snd = turn.marks := by
    rw [List.map_map]
    exact List.map_id _
  rw [hmap]
  exact h.names

/-! ### Steps -/

section begins

variable {source : Source σ} {filename : String} {decoder : Decoder σ} {st : State σ} {w' : σ}

theorem start_unloaded (call : Caller σ) {e : Thrown}
    (h : loadRecords source filename decoder (some st.seeder.baseDir) st.seeder.names st.world =
      (.error e, w')) :
    (Step.start filename decoder call).perform source st = st.join
      { stage := .ended (.error e), marks := [], seeder := st.seeder.loadFailed filename e
        world := w' } := by
  have hstart : Run.start source filename decoder (st.seeder, st.world) = _ :=
    Action.bind_error (Seeder.load_error h)
  rw [Step.perform, hstart]

theorem start_loaded (call : Caller σ) {records : Records}
    (h : loadRecords source filename decoder (some st.seeder.baseDir) st.seeder.names st.world =
      (.ok records, w')) :
    (Step.start filename decoder call).perform source st = st.join
      (proceed call { filename, pending := records.entries } (st.seeder.loaded filename) w') := by
  have hstart : Run.start source filename decoder (st.seeder, st.world) =
      (.ok { filename, pending := records.entries }, (st.seeder.loaded filename, w')) :=
    Action.bind_ok (Seeder.load_ok h)
  rw [Step.perform, hstart]

end begins

/-- A step is the first turn of a run that begins, another turn of a run that waits, or neither. -/
theorem perform_cases (source : Source σ) (step : Step σ) (st : State σ) :
    (∃ turn, step.perform source st = st.join turn ∧ turn.Registers st.seeder ∧
      step.dir? = none) ∨
    (∃ i outcome run call, step = .settle i outcome ∧ st.runs[i]? = some (.waiting run call) ∧
      step.perform source st = st.take i (resume call run outcome st.seeder st.world)) ∨
    ∃ s w, step.perform source st = { st with seeder := s, world := w } ∧
      s.names = st.seeder.names ∧ s.baseDir = step.dir?.getD st.seeder.baseDir := by
  cases step with
  | setDir dir => exact .inr (.inr ⟨_, _, rfl, rfl, rfl⟩)
  | meanwhile change => exact .inr (.inr ⟨_, _, rfl, rfl, rfl⟩)
  | populate filename decoder insert =>
    obtain ⟨r, s, w, new, inserts, added, -, -, hends, hnames, hadds⟩ :=
      Seeder.populate_ends source filename decoder insert st.seeder [] st.world
    obtain ⟨r', s', calls, w', hends', he⟩ :=
      Seeder.exists_ending source filename decoder insert st.seeder [] st.world
    cases hends.1.symm.trans hends'.1
    refine .inl ⟨_, by rw [Step.perform, hends.2], ⟨?_, he.baseDir⟩, rfl⟩
    rw [hnames, List.nil_append, fulfilled_ofAnswers, hadds.inserted_eq]
  | start filename decoder call =>
    rcases Action.run_cases (loadRecords source filename decoder (some st.seeder.baseDir)
      st.seeder.names) st.world with ⟨records, w', h⟩ | ⟨e, w', h⟩
    · obtain ⟨hnames, hdir⟩ := registers_proceed call { filename, pending := records.entries }
        (st.seeder.loaded filename) w'
      exact .inl ⟨_, start_loaded call h, ⟨hnames, hdir⟩, rfl⟩
    · exact .inl ⟨_, start_unloaded call h, ⟨rfl, rfl⟩, rfl⟩
  | settle i outcome =>
    cases h : st.runs[i]? with
    | none =>
      refine .inr (.inr ⟨st.seeder, st.world, ?_, rfl, rfl⟩)
      simp only [Step.perform, h]
    | some stage =>
      cases stage with
      | ended result =>
        refine .inr (.inr ⟨st.seeder, st.world, ?_, rfl, rfl⟩)
        simp only [Step.perform, h]
      | waiting run call =>
        refine .inr (.inl ⟨i, outcome, run, call, rfl, h, ?_⟩)
        simp only [Step.perform, h]

/-- Every step, and with it every schedule, registers just the inserts that are seen to answer. -/
theorem adds_perform (source : Source σ) (step : Step σ) (st : State σ) :
    Adds st (step.perform source st) := by
  rcases perform_cases source step st with
    ⟨turn, h, hr, -⟩ | ⟨i, outcome, run, call, -, -, h⟩ | ⟨s, w, h, hn, -⟩
  · rw [h]
    exact adds_of_registers _ hr
  · rw [h]
    exact adds_of_registers i (registers_resume call run outcome st.seeder st.world)
  · rw [h]
    exact ⟨[], by rw [List.append_nil], hn⟩

theorem adds_performAll (source : Source σ) (steps : List (Step σ)) (st : State σ) :
    Adds st (performAll source steps st) := by
  induction steps generalizing st with
  | nil => exact .refl st
  | cons step steps ih => exact (adds_perform source step st).trans (ih (step.perform source st))

theorem baseDir_perform (source : Source σ) (step : Step σ) (st : State σ) :
    (step.perform source st).seeder.baseDir = step.dir?.getD st.seeder.baseDir := by
  rcases perform_cases source step st with
    ⟨turn, h, hr, hd⟩ | ⟨i, outcome, run, call, rfl, -, h⟩ | ⟨s, w, h, -, hd⟩
  · rw [h, hd]
    exact hr.baseDir
  · rw [h]
    exact (registers_resume call run outcome st.seeder st.world).baseDir
  · rw [h]
    exact hd

/-- The directory is the last one that was set, whatever runs did since. -/
theorem baseDir_performAll (source : Source σ) (steps : List (Step σ)) (st : State σ) :
    (performAll source steps st).seeder.baseDir =
      (steps.filterMap Step.dir?).getLast?.getD st.seeder.baseDir := by
  induction steps generalizing st with
  | nil => rfl
  | cons step steps ih =>
    rw [performAll, List.foldl_cons]
    refine (ih (step.perform source st)).trans ?_
    rw [baseDir_perform]
    cases hd : step.dir? with
    | none => rw [List.filterMap_cons_none hd, Option.getD_none]
    | some dir =>
      rw [List.filterMap_cons_some hd, List.getLast?_cons, Option.getD_some, Option.getD_some]

end Overlap

end Seedbed
