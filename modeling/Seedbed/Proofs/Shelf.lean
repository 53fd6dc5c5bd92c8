import Seedbed.Proofs.Calls
import Seedbed.Shelf

/-! Requests to a shelf, one after the other, whatever its functions do at each call. Until a load
succeeds every load is tried and every question is refused. From then on the shelf answers from the
records of this one load, and calls none of its functions any more. -/

namespace Seedbed

namespace Shelf

variable {σ : Type}

def Plan.noting (plan : Plan σ) : Plan (List Call × σ) where
  filename := plan.filename
  baseDir := plan.baseDir
  decoder := plan.decoder.noting
  source := plan.source.noting

inductive Request
  | load (names : Registry)
  | get (label : String)
  | getAll

inductive Answer
  | loaded
  | record (v : Value)
  | records (m : Records)

def Request.perform (plan : Plan σ) : Request → Action (Shelf × σ) Answer
  | load names => do
    Shelf.load plan names
    return .loaded
  | get label => do
    let s ← Action.state
    return .record (← Action.ofExcept .fault (s.get plan label))
  | getAll => do
    let s ← Action.state
    return .records (← Action.ofExcept .fault (s.getAll plan))

def performAll (plan : Plan σ) :
    List Request → Shelf × σ → List (Except Thrown Answer) × (Shelf × σ)
  | [], st => ([], st)
  | q :: rest, st =>
    let next := q.perform plan st
    let later := performAll plan rest next.2
    (next.1 :: later.1, later.2)

theorem performAll_append (plan : Plan σ) (before after : List Request) (st : Shelf × σ) :
    performAll plan (before ++ after) st =
      ((performAll plan before st).1 ++ (performAll plan after (performAll plan before st).2).1,
        (performAll plan after (performAll plan before st).2).2) := by
  induction before generalizing st with
  | nil => rfl
  | cons q before ih => simp [performAll, ih]

/-- What is answered once these records are loaded. -/
def answerFrom (plan : Plan σ) (m : Records) : Request → Except Thrown Answer
  | .load _ => .error (.fault (Fault.alreadyLoaded plan.filename))
  | .getAll => .ok (.records m)
  | .get label =>
    match m.get? label with
    | none | some .absent => .error (.fault (Fault.recordNotFound plan.filename label))
    | some v => .ok (.record v)

/-- No load among these requests succeeds: each is tried and fails, and all else is refused. -/
inductive Waits (plan : Plan σ) : List Request → σ → List (Except Thrown Answer) → σ → Prop
  | nil {w : σ} : Waits plan [] w [] w
  | load {names : Registry} {requests : List Request} {answers : List (Except Thrown Answer)}
      {e : Thrown} {w w₁ w' : σ}
      (fails : loadRecords plan.source plan.filename plan.decoder plan.baseDir names w =
        (.error e, w₁))
      (rest : Waits plan requests w₁ answers w') :
      Waits plan (.load names :: requests) w (.error e :: answers) w'
  | get {label : String} {requests : List Request} {answers : List (Except Thrown Answer)}
      {w w' : σ} (rest : Waits plan requests w answers w') :
      Waits plan (.get label :: requests) w
        (.error (.fault (Fault.notLoaded plan.filename)) :: answers) w'
  | getAll {requests : List Request} {answers : List (Except Thrown Answer)} {w w' : σ}
      (rest : Waits plan requests w answers w') :
      Waits plan (.getAll :: requests) w
        (.error (.fault (Fault.notLoaded plan.filename)) :: answers) w'

namespace Waits

variable {plan : Plan σ} {requests : List Request} {answers : List (Except Thrown Answer)}
  {w w' : σ}

theorem length_eq (h : Waits plan requests w answers w') : answers.length = requests.length := by
  induction h with
  | nil => rfl
  | load _ _ ih | get _ ih | getAll _ ih => simp [ih]

theorem not_ok (h : Waits plan requests w answers w') (a : Answer) : .ok a ∉ answers := by
  induction h with
  | nil => simp
  | load _ _ ih | get _ ih | getAll _ ih => simp [ih]

end Waits

/-! ### One request -/

section request

variable (plan : Plan σ) {s : Shelf} {w w' : σ} {m : Records}

def started (s : Shelf) : Shelf := s.note (loadingLine plan.filename)

def asked (s : Shelf) : Request → Shelf
  | .load _ => s.started plan
  | .get _ | .getAll => s

theorem asked_records (s : Shelf) (q : Request) :
    (s.asked plan q).records = s.records := by
  cases q with
  | load | get | getAll => rfl

theorem load_of_loaded (h : s.records = some m) (names : Registry) :
    Shelf.load plan names (s, w) =
      (.error (.fault (Fault.alreadyLoaded plan.filename)), (s.started plan, w)) := by
  have hloaded : (s.started plan).isLoaded = true := by simp [started, isLoaded, note, h]
  exact (Action.bind_ok (Action.change_run _ s w)).trans
    ((Action.bind_ok (Action.state_run _ w)).trans (congrFun (if_pos hloaded) _))

theorem load_of_empty (h : s.records = none) (names : Registry) :
    Shelf.load plan names (s, w) =
      ((loadRecords plan.source plan.filename plan.decoder plan.baseDir names).beside >>=
        fun records => Action.change fun s => { s with records := some records })
        (s.started plan, w) := by
  have hempty : ¬(s.started plan).isLoaded := by simp [started, isLoaded, note, h]
  exact (Action.bind_ok (Action.change_run _ s w)).trans
    ((Action.bind_ok (Action.state_run _ w)).trans (congrFun (if_neg hempty) _))

variable {names : Registry}

theorem load_error {e : Thrown} (h : s.records = none)
    (hl : loadRecords plan.source plan.filename plan.decoder plan.baseDir names w =
      (.error e, w')) :
    Shelf.load plan names (s, w) = (.error e, (s.started plan, w')) := by
  have hb : (loadRecords plan.source plan.filename plan.decoder plan.baseDir names).beside
      (s.started plan, w) = (.error e, (s.started plan, w')) := by
    rw [Action.beside_run, hl]
  exact (load_of_empty plan h names).trans (Action.bind_error hb)

theorem load_ok (h : s.records = none)
    (hl : loadRecords plan.source plan.filename plan.decoder plan.baseDir names w =
      (.ok m, w')) :
    Shelf.load plan names (s, w) =
      (.ok (), ({ s.started plan with records := some m }, w')) := by
  have hb : (loadRecords plan.source plan.filename plan.decoder plan.baseDir names).beside
      (s.started plan, w) = (.ok m, (s.started plan, w')) := by
    rw [Action.beside_run, hl]
  exact (load_of_empty plan h names).trans (Action.bind_ok hb)

theorem perform_load_error {e : Thrown} (h : s.records = none)
    (hl : loadRecords plan.source plan.filename plan.decoder plan.baseDir names w =
      (.error e, w')) :
    Request.perform plan (.load names) (s, w) = (.error e, (s.started plan, w')) :=
  Action.bind_error (load_error plan h hl)

theorem perform_load_ok (h : s.records = none)
    (hl : loadRecords plan.source plan.filename plan.decoder plan.baseDir names w =
      (.ok m, w')) :
    Request.perform plan (.load names) (s, w) =
      (.ok .loaded, ({ s.started plan with records := some m }, w')) :=
  Action.bind_ok (load_ok plan h hl)

theorem perform_of_empty (h : s.records = none) {q : Request} (hq : ∀ names, q ≠ .load names) :
    q.perform plan (s, w) = (.error (.fault (Fault.notLoaded plan.filename)), (s, w)) := by
  have hall : s.getAll plan = .error (Fault.notLoaded plan.filename) := by simp [Shelf.getAll, h]
  cases q with
  | load names => exact absurd rfl (hq names)
  | get label =>
    have hget : s.get plan label = .error (Fault.notLoaded plan.filename) := by
      rw [Shelf.get, hall]
      rfl
    refine (Action.bind_ok (Action.state_run s w)).trans ?_
    rw [hget]
    rfl
  | getAll =>
    refine (Action.bind_ok (Action.state_run s w)).trans ?_
    rw [hall]
    rfl

/-- A loaded shelf answers from its records and calls nothing. -/
theorem perform_of_loaded (h : s.records = some m) (q : Request) :
    q.perform plan (s, w) = (answerFrom plan m q, (s.asked plan q, w)) := by
  have hall : s.getAll plan = .ok m := by simp [Shelf.getAll, h]
  cases q with
  | load names => exact Action.bind_error (load_of_loaded plan h names)
  | get label =>
    have hget : s.get plan label = match m.get? label with
        | none | some .absent => .error (Fault.recordNotFound plan.filename label)
        | some v => .ok v := by
      rw [Shelf.get, hall]
      rfl
    refine (Action.bind_ok (Action.state_run s w)).trans ?_
    rw [hget, answerFrom]
    split <;> rfl
  | getAll =>
    refine (Action.bind_ok (Action.state_run s w)).trans ?_
    rw [hall]
    rfl

end request

/-! ### All requests -/

section requests

variable (plan : Plan σ) {s : Shelf} {m : Records}

theorem performAll_of_loaded (h : s.records = some m) (requests : List Request) (w : σ) :
    performAll plan requests (s, w) =
      (requests.map (answerFrom plan m), (requests.foldl (asked plan) s, w)) := by
  induction requests generalizing s with
  | nil => rfl
  | cons q requests ih =>
    have h₁ : (s.asked plan q).records = some m := (asked_records plan s q).trans h
    simp [performAll, perform_of_loaded plan h q, ih h₁]

theorem records_foldl_asked (requests : List Request) :
    (requests.foldl (asked plan) s).records = s.records := by
  induction requests generalizing s with
  | nil => rfl
  | cons q requests ih => rw [List.foldl_cons, ih, asked_records]

/-- The requests of an empty shelf wait, or the first load that succeeds parts them. -/
theorem performAll_of_empty (h : s.records = none) (requests : List Request) (w : σ) :
    (∃ answers s' w', performAll plan requests (s, w) = (answers, (s', w')) ∧ s'.records = none ∧
      Waits plan requests w answers w') ∨
    ∃ before names after tried s₁ w₁ m w₂, requests = before ++ .load names :: after ∧
      performAll plan before (s, w) = (tried, (s₁, w₁)) ∧ s₁.records = none ∧
      Waits plan before w tried w₁ ∧
      loadRecords plan.source plan.filename plan.decoder plan.baseDir names w₁ = (.ok m, w₂) := by
  induction requests generalizing s w with
  | nil => exact .inl ⟨[], s, w, rfl, h, .nil⟩
  | cons q requests ih =>
    by_cases hq : ∃ names, q = .load names
    · obtain ⟨names, rfl⟩ := hq
      rcases Action.run_cases
        (loadRecords plan.source plan.filename plan.decoder plan.baseDir names) w with
        ⟨m, w₂, hl⟩ | ⟨e, w₁, hl⟩
      · exact .inr ⟨[], names, requests, [], s, w, m, w₂, rfl, rfl, h, .nil, hl⟩
      · have hp := perform_load_error plan h hl
        obtain ⟨answers, s', w', hrun, h', hw⟩ |
          ⟨before, names', after, tried, s₁, w₂, m, w₃, rfl, hrun, h₁, hw, hl'⟩ :=
            ih (s := s.started plan) h w₁
        · exact .inl ⟨.error e :: answers, s', w', by simp [performAll, hp, hrun], h', .load hl hw⟩
        · exact .inr ⟨.load names :: before, names', after, .error e :: tried, s₁, w₂, m, w₃, rfl,
            by simp [performAll, hp, hrun], h₁, .load hl hw, hl'⟩
    · have hp := perform_of_empty plan (w := w) h fun names hn => hq ⟨names, hn⟩
      have hcons : ∀ {requests answers w'}, Waits plan requests w answers w' →
          Waits plan (q :: requests) w
            (.error (.fault (Fault.notLoaded plan.filename)) :: answers) w' := by
        intro requests answers w' hw
        cases q with
        | load names => exact absurd ⟨names, rfl⟩ hq
        | get label => exact .get hw
        | getAll => exact .getAll hw
      obtain ⟨answers, s', w', hrun, h', hw⟩ |
        ⟨before, names', after, tried, s₁, w₂, m, w₃, rfl, hrun, h₁, hw, hl'⟩ := ih h w
      · exact .inl ⟨_, s', w', by simp [performAll, hp, hrun], h', hcons hw⟩
      · exact .inr ⟨q :: before, names', after, _, s₁, w₂, m, w₃, rfl,
          by simp [performAll, hp, hrun], h₁, hcons hw, hl'⟩

/-! ### Watched requests -/

theorem answerFrom_noting (m : Records) : answerFrom plan.noting m = answerFrom plan m := by
  funext q
  cases q with
  | load | get | getAll => rfl

theorem asked_noting : asked plan.noting = asked plan := by
  funext s q
  cases q with
  | load | get | getAll => rfl

theorem perform_noting (q : Request) (s : Shelf) (calls : List Call) (w : σ) : ∃ r s' w' new,
    q.perform plan (s, w) = (r, (s', w')) ∧
      q.perform plan.noting (s, (calls, w)) = (r, (s', (calls ++ new, w'))) := by
  cases h : s.records with
  | some m =>
    refine ⟨_, _, _, [], perform_of_loaded plan h q, ?_⟩
    rw [List.append_nil, perform_of_loaded plan.noting h q, answerFrom_noting,
      asked_noting]
  | none =>
    by_cases hq : ∃ names, q = .load names
    · obtain ⟨names, rfl⟩ := hq
      obtain ⟨new, -, hnoted⟩ :=
        loadRecords_noting plan.source plan.filename plan.decoder plan.baseDir names calls w
      rcases Action.run_cases
        (loadRecords plan.source plan.filename plan.decoder plan.baseDir names) w with
        ⟨m, w', hl⟩ | ⟨e, w', hl⟩
      · rw [hl] at hnoted
        exact ⟨_, _, _, new, perform_load_ok plan h hl, perform_load_ok plan.noting h hnoted⟩
      · rw [hl] at hnoted
        exact ⟨_, _, _, new, perform_load_error plan h hl,
          perform_load_error plan.noting h hnoted⟩
    · have hne := fun names hn => hq ⟨names, hn⟩
      refine ⟨_, _, _, [], perform_of_empty plan h hne, ?_⟩
      rw [List.append_nil]
      exact perform_of_empty plan.noting h hne

theorem performAll_noting (requests : List Request) (s : Shelf) (calls : List Call) (w : σ) :
    ∃ answers s' w' new, performAll plan requests (s, w) = (answers, (s', w')) ∧
      performAll plan.noting requests (s, (calls, w)) = (answers, (s', (calls ++ new, w'))) := by
  induction requests generalizing s calls w with
  | nil => exact ⟨[], s, w, [], rfl, by rw [List.append_nil]; rfl⟩
  | cons q requests ih =>
    obtain ⟨r, s₁, w₁, new, hq, hq'⟩ := perform_noting plan q s calls w
    obtain ⟨answers, s', w', later, hrest, hrest'⟩ := ih s₁ (calls ++ new) w₁
    refine ⟨r :: answers, s', w', new ++ later, ?_, ?_⟩
    · simp [performAll, hq, hrest]
    · simp [performAll, hq', hrest']

end requests

/-! ### From a new shelf on -/

/-- A load with these names succeeded. -/
def Succeeds (requests : List Request) (answers : List (Except Thrown Answer)) : Prop :=
  ∃ names, (.load names, .ok .loaded) ∈ requests.zip answers

/-- A shelf of which no request loaded it, and what the next load does. -/
structure Empty (plan : Plan σ) (requests : List Request) (answers : List (Except Thrown Answer))
    (s : Shelf) (w w' : σ) : Prop where
  waits : Waits plan requests w answers w'
  records : s.records = none
  /-- However many loads failed, the next one succeeds if all its stages do. -/
  next : ∀ names m w₂,
    LoadYields plan.source plan.filename plan.decoder plan.baseDir names w' m w₂ →
      ∃ s₂, performAll plan (requests ++ [.load names]) ({}, w) =
        (answers ++ [.ok .loaded], (s₂, w₂)) ∧ s₂.records = some m

structure Filled (plan : Plan σ) (requests : List Request) (answers : List (Except Thrown Answer))
    (s : Shelf) (calls : List Call) (w w' : σ) (m : Records) : Prop where
  records : s.records = some m
  /-- The first load that succeeds decodes the records. All before it wait, all after it are
  answered from the records, and the calls of this load are the last ones. -/
  parted : ∃ before names after tried s₁ before_calls w₁ new,
    requests = before ++ .load names :: after ∧
    answers = tried ++ .ok .loaded :: after.map (answerFrom plan m) ∧
    performAll plan.noting before ({}, ([], w)) = (tried, (s₁, (before_calls, w₁))) ∧
    s₁.records = none ∧ Waits plan before w tried w₁ ∧
    LoadYields plan.source plan.filename plan.decoder plan.baseDir names w₁ m w' ∧
    LoadCalls plan.source plan.filename plan.decoder plan.baseDir names w₁ new ∧
    calls = before_calls ++ new

theorem performAll_load_ok {plan : Plan σ} {before : List Request} {st : Shelf × σ}
    {tried : List (Except Thrown Answer)} {s₁ : Shelf} {w₁ w₂ : σ} {names : Registry} {m : Records}
    (hrun : performAll plan before st = (tried, (s₁, w₁))) (h : s₁.records = none)
    (hl : loadRecords plan.source plan.filename plan.decoder plan.baseDir names w₁ = (.ok m, w₂))
    (after : List Request) :
    performAll plan (before ++ .load names :: after) st =
      (tried ++ .ok .loaded :: after.map (answerFrom plan m),
        (after.foldl (asked plan) { s₁.started plan with records := some m }, w₂)) := by
  have hafter := performAll_of_loaded plan
    (s := { started plan s₁ with records := some m }) (m := m) rfl after w₂
  rw [performAll_append, hrun]
  simp [performAll, perform_load_ok plan h hl, hafter]

theorem empty_of_waits {plan : Plan σ} {requests : List Request}
    {answers : List (Except Thrown Answer)} {s : Shelf} {w w' : σ}
    (hrun : performAll plan requests ({}, w) = (answers, (s, w'))) (h : s.records = none)
    (hw : Waits plan requests w answers w') : Empty plan requests answers s w w' where
  waits := hw
  records := h
  next _ _ _ hy := ⟨_, performAll_load_ok hrun h hy.run [], rfl⟩

/-- Whatever is asked of a new shelf, and whatever its functions do, it is loaded just if a load has
succeeded. As long as none has, it can be loaded with the names of the next load. Once one has, it
keeps the records of this load. -/
theorem load_once (plan : Plan σ) (requests : List Request) (w : σ) :
    ∃ answers s calls w', performAll plan requests ({}, w) = (answers, (s, w')) ∧
      performAll plan.noting requests ({}, ([], w)) = (answers, (s, (calls, w'))) ∧
      (s.isLoaded ↔ Succeeds requests answers) ∧
      (Empty plan requests answers s w w' ∨
        ∃ m, Filled plan requests answers s calls w w' m) := by
  obtain ⟨answers, s, w', hrun, h, hw⟩ |
    ⟨before, names, after, tried, s₁, w₁, m, w₂, rfl, hrun, h, hw, hl⟩ :=
      performAll_of_empty plan (s := {}) rfl requests w
  · obtain ⟨_, _, _, calls, hrun', hnoted⟩ := performAll_noting plan requests {} [] w
    cases hrun'.symm.trans hrun
    refine ⟨answers, s, calls, w', hrun, hnoted, ?_, .inl (empty_of_waits hrun h hw)⟩
    have hfails : ¬Succeeds requests answers := by
      rintro ⟨names, hmem⟩
      exact hw.not_ok _ (List.of_mem_zip hmem).2
    simp [isLoaded, h, hfails]
  · obtain ⟨_, _, _, calls, hrun', hnoted⟩ := performAll_noting plan before {} [] w
    cases hrun'.symm.trans hrun
    obtain ⟨new, hnew, hl'⟩ :=
      loadRecords_noting plan.source plan.filename plan.decoder plan.baseDir names calls w₁
    rw [hl] at hl'
    have hnoted' := performAll_load_ok hnoted h hl' after
    rw [answerFrom_noting, asked_noting] at hnoted'
    have hrecords :=
      records_foldl_asked plan (s := { s₁.started plan with records := some m }) after
    refine ⟨_, _, calls ++ new, w₂, performAll_load_ok hrun h hl after, hnoted', ?_,
      .inr ⟨m, hrecords, before, names, after, tried, s₁, calls, w₁, new, rfl, rfl, hnoted, h, hw,
        .of_run hl, hnew, rfl⟩⟩
    have hsucceeds : Succeeds (before ++ .load names :: after)
        (tried ++ .ok .loaded :: after.map (answerFrom plan m)) := by
      refine ⟨names, ?_⟩
      rw [List.zip_append hw.length_eq.symm, List.zip_cons_cons]
      simp
    simp [isLoaded, hrecords, hsucceeds]

end Shelf

end Seedbed
