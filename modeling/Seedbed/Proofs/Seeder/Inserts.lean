import Seedbed.Proofs.Calls

/-! The inserts of one file. The records are inserted in order up to the first insert that throws,
and after each of them its identifier is registered under its label. What this does to the seeder
and to the caller's state is said of the inserts alone. -/

namespace Seedbed

namespace Registry

def registered (r : Registry) (pairs : List (String × Identifier)) : Registry :=
  pairs.foldl (fun r p => r.insert p.1 p.2.toText) r

@[simp] theorem registered_nil (r : Registry) : r.registered [] = r := rfl

@[simp] theorem registered_cons (r : Registry) (p : String × Identifier)
    (pairs : List (String × Identifier)) :
    r.registered (p :: pairs) = (r.insert p.1 p.2.toText).registered pairs := rfl

theorem registered_append (r : Registry) (a b : List (String × Identifier)) :
    r.registered (a ++ b) = (r.registered a).registered b := List.foldl_append

theorem has_insert (r : Registry) (label id l : String) :
    (r.insert label id).has l = (decide (l = label) || r.has l) := by
  show ((r.ids.insert label id).get? l).isSome = _
  rw [Keyed.get?_insert]
  by_cases h : l = label
  · simp [h]
  · simp [h, has, Keyed.contains]

theorem has_registered (r : Registry) (pairs : List (String × Identifier)) (l : String) :
    (r.registered pairs).has l = true ↔ r.has l = true ∨ l ∈ pairs.map Prod.fst := by
  induction pairs generalizing r with
  | nil => simp
  | cons p pairs ih =>
    rw [registered_cons, ih, has_insert, List.map_cons, List.mem_cons, Bool.or_eq_true,
      decide_eq_true_eq, or_assoc, or_left_comm]

/-- Of the identifiers registered under a label the last one is found. -/
theorem lookup_registered (r : Registry) (pairs : List (String × Identifier)) (l : String) :
    (r.registered pairs).lookup l =
      ((pairs.reverse.lookup l).map Identifier.toText).or (r.lookup l) := by
  induction pairs generalizing r with
  | nil => rfl
  | cons p pairs ih =>
    obtain ⟨label, id⟩ := p
    rw [registered_cons, ih, lookup_insert, List.reverse_cons, List.lookup_append]
    cases pairs.reverse.lookup l with
    | some id' => rfl
    | none =>
      by_cases h : l = label
      · simp [h]
      · simp [lookup_cons_eq, h]

theorem lookup_registered_of_not_mem (r : Registry) {pairs : List (String × Identifier)}
    {l : String} (h : l ∉ pairs.map Prod.fst) : (r.registered pairs).lookup l = r.lookup l := by
  have hn : pairs.reverse.lookup l = none := by
    rw [List.lookup_eq_none_iff]
    intro p hp
    rw [bne_iff_ne]
    rintro rfl
    exact h (List.mem_map_of_mem (List.mem_reverse.1 hp))
  rw [lookup_registered, hn]
  rfl

theorem lookup_registered_of_mem (r : Registry) {pairs : List (String × Identifier)}
    {p : String × Identifier} (hn : (pairs.map Prod.fst).Nodup) (hp : p ∈ pairs) :
    (r.registered pairs).lookup p.1 = some p.2.toText := by
  obtain ⟨before, after, rfl⟩ := List.append_of_mem hp
  rw [List.map_append, List.map_cons, List.nodup_append, List.nodup_cons] at hn
  rw [registered_append, registered_cons, lookup_registered_of_not_mem _ hn.2.1.1, lookup_insert,
    if_pos rfl]

/-- Identifiers under labels of which none is in both lists can be registered in either order. -/
theorem lookup_registered_comm (r : Registry) {a b : List (String × Identifier)}
    (h : ∀ label ∈ a.map Prod.fst, label ∉ b.map Prod.fst) (label : String) :
    ((r.registered a).registered b).lookup label =
      ((r.registered b).registered a).lookup label := by
  by_cases hl : label ∈ a.map Prod.fst
  · rw [lookup_registered_of_not_mem _ (h label hl), lookup_registered, lookup_registered _ a,
      lookup_registered_of_not_mem _ (h label hl)]
  · rw [lookup_registered_of_not_mem _ hl, lookup_registered, lookup_registered _ b,
      lookup_registered_of_not_mem _ hl]

end Registry

namespace Seeder

/-- Inserts a record that stands under a label, and registers its identifier. This is all that a
seeder keeps of an insert, apart from its log. -/
def registering {σ : Type} (insert : Inserter σ) (entry : String × Value) :
    Action (Registry × σ) Identifier := do
  let names ← Action.state
  let id ← (insert names entry.2).beside
  Action.change fun names => names.insert entry.1 id.toText
  return id

/-- The seeder after identifiers were registered one after the other. -/
def registerAll (filename : String) (s : Seeder) (pairs : List (String × Identifier)) : Seeder :=
  pairs.foldl (fun s p => s.register filename p.1 p.2) s

@[simp] theorem register_names (filename label : String) (id : Identifier) (s : Seeder) :
    (s.register filename label id).names = s.names.insert label id.toText := by
  unfold register
  split <;> rfl

@[simp] theorem register_filenames (filename label : String) (id : Identifier) (s : Seeder) :
    (s.register filename label id).filenames = s.filenames := by
  unfold register
  split <;> rfl

@[simp] theorem register_baseDir (filename label : String) (id : Identifier) (s : Seeder) :
    (s.register filename label id).baseDir = s.baseDir := by
  unfold register
  split <;> rfl

theorem registerAll_kept (filename : String) (s : Seeder) (pairs : List (String × Identifier)) :
    (s.registerAll filename pairs).names = s.names.registered pairs ∧
      (s.registerAll filename pairs).filenames = s.filenames ∧
      (s.registerAll filename pairs).baseDir = s.baseDir := by
  induction pairs generalizing s with
  | nil => exact ⟨rfl, rfl, rfl⟩
  | cons p pairs ih => simpa [registerAll] using ih (s.register filename p.1 p.2)

section inserts

variable {σ : Type} {insert : Inserter σ} {filename label : String} {record : Value}
  {names names' : Registry} {entries done : List (String × Value)} {ids : List Identifier}
  {id : Identifier} {e : Thrown} {s : Seeder} {w w' : σ}

/-! ### One insert -/

theorem registering_ok (h : insert names record w = (.ok id, w')) :
    registering insert (label, record) (names, w) =
      (.ok id, (names.insert label id.toText, w')) := by
  have hb : (insert names record).beside (names, w) = (.ok id, (names, w')) := by
    rw [Action.beside_run, h]
  exact (Action.bind_ok (Action.state_run names w)).trans (Action.bind_ok hb)

theorem registering_error (h : insert names record w = (.error e, w')) :
    registering insert (label, record) (names, w) = (.error e, (names, w')) := by
  have hb : (insert names record).beside (names, w) = (.error e, (names, w')) := by
    rw [Action.beside_run, h]
  exact (Action.bind_ok (Action.state_run names w)).trans (Action.bind_error hb)

theorem exists_of_registering_ok {entry : String × Value} {st : Registry × σ}
    (h : registering insert entry (names, w) = (.ok id, st)) :
    ∃ w', insert names entry.2 w = (.ok id, w') ∧ st = (names.insert entry.1 id.toText, w') := by
  rcases Action.run_cases (insert names entry.2) w with ⟨id', w', hi⟩ | ⟨e, w', hi⟩
  · have h' := (registering_ok hi).symm.trans h
    cases h'
    exact ⟨w', hi, rfl⟩
  · have h' := (registering_error hi).symm.trans h
    cases h'

theorem exists_of_registering_error {entry : String × Value} {st : Registry × σ}
    (h : registering insert entry (names, w) = (.error e, st)) :
    ∃ w', insert names entry.2 w = (.error e, w') ∧ st = (names, w') := by
  rcases Action.run_cases (insert names entry.2) w with ⟨id', w', hi⟩ | ⟨e', w', hi⟩
  · have h' := (registering_ok hi).symm.trans h
    cases h'
  · have h' := (registering_error hi).symm.trans h
    cases h'
    exact ⟨w', hi, rfl⟩

theorem insertAll_cons_ok {rest : List (String × Value)}
    (h : insert s.names record w = (.ok id, w')) :
    insertAll filename insert ((label, record) :: rest) (s, w) =
      (insertAll filename insert rest >>= fun ids => pure (id :: ids))
        (s.register filename label id, w') := by
  have ho : (insert s.names record).beside.outcome (s, w) = (.ok (.ok id), (s, w')) := by
    rw [Action.outcome_run, Action.beside_run, h]
  rw [insertAll, Action.bind_ok (Action.state_run s w), Action.bind_ok ho]
  rfl

theorem insertAll_cons_error {rest : List (String × Value)}
    (h : insert s.names record w = (.error e, w')) :
    insertAll filename insert ((label, record) :: rest) (s, w) =
      (.error (.fault (Fault.insertFailed filename label e)),
        (s.noteFailure filename label e, w')) := by
  have ho : (insert s.names record).beside.outcome (s, w) = (.ok (.error e), (s, w')) := by
    rw [Action.outcome_run, Action.beside_run, h]
  rw [insertAll, Action.bind_ok (Action.state_run s w), Action.bind_ok ho]
  rfl

/-! ### All inserts -/

theorem insertAll_ok (h : Action.Each (registering insert) entries (s.names, w) ids (names', w')) :
    insertAll filename insert entries (s, w) =
      (.ok ids, (s.registerAll filename ((entries.map Prod.fst).zip ids), w')) := by
  induction entries generalizing s w ids with
  | nil =>
    cases h
    rfl
  | cons entry entries ih =>
    cases h with
    | cons head tail =>
      obtain ⟨w₁, hi, rfl⟩ := exists_of_registering_ok head
      rw [← register_names filename] at tail
      exact (insertAll_cons_ok hi).trans ((Action.bind_ok (ih tail)).trans rfl)

theorem insertAll_error
    (h : Action.FailsAt (registering insert) entries (s.names, w) done (label, record) ids e
      (names', w')) :
    insertAll filename insert entries (s, w) =
      (.error (.fault (Fault.insertFailed filename label e)),
        ((s.registerAll filename ((done.map Prod.fst).zip ids)).noteFailure filename label e,
          w')) := by
  induction entries generalizing s w done ids with
  | nil => cases h
  | cons entry entries ih =>
    cases h with
    | here head =>
      obtain ⟨w₁, hi, hst⟩ := exists_of_registering_error head
      cases hst
      exact insertAll_cons_error hi
    | later head tail =>
      obtain ⟨w₁, hi, rfl⟩ := exists_of_registering_ok head
      rw [← register_names filename] at tail
      exact (insertAll_cons_ok hi).trans (Action.bind_error (ih tail))

/-! ### Watched inserts -/

def insertCalls (entries : List (String × Value)) (ids : List Identifier) : List Call :=
  entries.zipWith (fun entry id => .insert entry.2 (.ok id)) ids

theorem insertCalls_record? (h : ids.length = entries.length) :
    (insertCalls entries ids).filterMap Call.record? = entries.map Prod.snd := by
  induction entries generalizing ids with
  | nil =>
    rw [insertCalls, List.zipWith_nil_left]
    rfl
  | cons entry entries ih =>
    cases ids with
    | nil => cases h
    | cons id ids =>
      rw [List.map_cons, ← ih (Nat.succ.inj h)]
      rfl

theorem insertCalls_text? (entries : List (String × Value)) (ids : List Identifier) :
    (insertCalls entries ids).filterMap Call.text? = [] := by
  induction entries generalizing ids with
  | nil =>
    rw [insertCalls, List.zipWith_nil_left]
    rfl
  | cons entry entries ih =>
    cases ids with
    | nil => rfl
    | cons id ids => exact ih ids

/-- The inserts of records are the next ones that are pending. -/
theorem answers_insertCalls {later : List (String × Value)} (h : ids.length = entries.length)
    (rest : List Call) :
    Call.answers (entries ++ later) (insertCalls entries ids ++ rest) =
      (entries.zip ids).map (fun p => (p.1, .ok p.2)) ++ Call.answers later rest := by
  induction entries generalizing ids with
  | nil =>
    rw [insertCalls, List.zipWith_nil_left]
    rfl
  | cons entry entries ih =>
    cases ids with
    | nil => cases h
    | cons id ids => exact congrArg (_ :: ·) (ih (Nat.succ.inj h))

theorem inserted_insertCalls {later : List (String × Value)} (h : ids.length = entries.length)
    (rest : List Call) :
    Call.inserted (entries ++ later) (insertCalls entries ids ++ rest) =
      (entries.map Prod.fst).zip ids ++ Call.inserted later rest := by
  rw [Call.inserted_eq, Call.inserted_eq, answers_insertCalls h, List.filterMap_append,
    List.filterMap_map, List.zip_map_left, ← List.filterMap_eq_map]
  rfl

theorem each_noting (calls : List Call)
    (h : Action.Each (registering insert) entries (names, w) ids (names', w')) :
    Action.Each (registering insert.noting) entries (names, (calls, w)) ids
      (names', (calls ++ insertCalls entries ids, w')) := by
  induction entries generalizing names w ids calls with
  | nil =>
    cases h
    rw [insertCalls, List.zipWith_nil_left, List.append_nil]
    exact .nil
  | cons entry entries ih =>
    cases h with
    | cons head tail =>
      obtain ⟨w₁, hi, rfl⟩ := exists_of_registering_ok head
      rename_i id ids
      have ht := ih (calls ++ [.insert entry.2 (.ok id)]) tail
      rw [List.append_assoc] at ht
      exact .cons (registering_ok (Inserter.noting_run hi calls)) ht

theorem failsAt_noting (calls : List Call)
    (h : Action.FailsAt (registering insert) entries (names, w) done (label, record) ids e
      (names', w')) :
    Action.FailsAt (registering insert.noting) entries (names, (calls, w)) done (label, record) ids
      e (names', (calls ++ (insertCalls done ids ++ [.insert record (.error e)]), w')) := by
  induction entries generalizing names w done ids calls with
  | nil => cases h
  | cons entry entries ih =>
    cases h with
    | here head =>
      obtain ⟨w₁, hi, hst⟩ := exists_of_registering_error head
      cases hst
      exact .here (registering_error (Inserter.noting_run hi calls))
    | later head tail =>
      obtain ⟨w₁, hi, rfl⟩ := exists_of_registering_ok head
      rename_i done id ids
      have ht := ih (calls ++ [.insert entry.2 (.ok id)]) tail
      rw [List.append_assoc] at ht
      exact .later (registering_ok (Inserter.noting_run hi calls)) ht

end inserts

end Seeder

end Seedbed
