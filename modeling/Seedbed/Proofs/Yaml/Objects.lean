import Seedbed.Proofs.Value.Describable
import Seedbed.Yaml.Evaluate

/-! Values from objects. An object can hold others and, through them, itself. Where it stands within
itself its value is a reference, and there are as many objects as an unfolding can enter, so the
room for them is never what ends it. -/

namespace Seedbed

namespace Yaml

inductive Result.Describable : Result → Prop
  | value {v : Value} (h : v.IsScalar) : Describable (.value v)
  | object (id : Nat) : Describable (.object id)

inductive Body.Describable : Body → Prop
  | atom {v : Value} (h : v.IsScalar) : Describable (.atom v)
  | list {items : List Result} (h : ∀ r ∈ items, r.Describable) : Describable (.list items)
  | record {fields : List (String × Result)} (h : ∀ f ∈ fields, f.2 ≠ .absent → f.2.Describable) :
      Describable (.record fields)
  | set {members : List Result} (h : ∀ r ∈ members, r.Describable) : Describable (.set members)
  | dictionary {entries : List (Result × Result)} (hk : ∀ e ∈ entries, e.1.Describable)
      (hv : ∀ e ∈ entries, e.2.Describable) : Describable (.dictionary entries)

namespace Heap

variable {heap : Heap} {room : Nat} {path : List Nat} {r : Result}

def Describable (heap : Heap) : Prop := ∀ b ∈ heap, b.2.Describable

theorem Describable.lookup (h : heap.Describable) {id : Nat} {body : Body}
    (hid : heap.lookup id = some body) : body.Describable := by
  obtain ⟨before, after, rfl, -⟩ := List.lookup_eq_some_iff.1 hid
  exact h (id, body) (List.mem_append_right _ (.head _))

theorem value_of_visited (heap : Heap) (room : Nat) {id up : Nat} (h : path.idxOf? id = some up) :
    heap.value room path (.object id) = .enclosing up ∧ up < path.length := by
  obtain ⟨hup, -⟩ := List.idxOf?_eq_some_iff.1 h
  exact ⟨value.eq_2 heap path id room up h, hup⟩

/-- What is absent stays so, and nothing else becomes absent. -/
theorem ne_absent_of_value (h : heap.value room path r ≠ .absent) : r ≠ .absent := by
  rintro rfl
  exact h (value.eq_1 ..)

/-- The references in the value of a result are to objects that it stands in. -/
theorem Describable.value (h : heap.Describable) (room : Nat) (path : List Nat)
    (hr : r.Describable) : (heap.value room path r).Describable path.length := by
  induction room generalizing path r with
  | zero =>
    cases hr with
    | value hv => exact .scalar hv
    | object id =>
      cases hid : path.idxOf? id with
      | some up =>
        obtain ⟨heq, hup⟩ := value_of_visited heap 0 hid
        exact heq ▸ .enclosing hup
      | none => exact value.eq_3 heap path id hid ▸ .scalar .null
  | succ room ih =>
    cases hr with
    | value hv => exact .scalar hv
    | object id =>
      cases hid : path.idxOf? id with
      | some up =>
        obtain ⟨heq, hup⟩ := value_of_visited heap (room + 1) hid
        exact heq ▸ .enclosing hup
      | none =>
        rw [value.eq_4 heap path id room hid]
        have hpart {r : Result} (hr : r.Describable) :
            (heap.value room (id :: path) r).Describable (path.length + 1) :=
          ih (id :: path) hr
        cases hbody : heap.lookup id with
        | none => exact .scalar .null
        | some body =>
          cases h.lookup hbody with
          | atom hv => exact .scalar hv
          | list h => exact .list (List.forall_mem_map.2 fun r hr => hpart (h r hr))
          | record h =>
            exact .record (List.forall_mem_map.2 fun f hf hne =>
              hpart (h f hf (ne_absent_of_value hne)))
          | set h => exact .set (List.forall_mem_map.2 fun r hr => hpart (h r hr))
          | dictionary hk hv =>
            exact .dictionary (List.forall_mem_map.2 fun e he => hpart (hk e he))
              (List.forall_mem_map.2 fun e he => hpart (hv e he))

theorem Describable.valueOf (h : heap.Describable) (hr : r.Describable) :
    (heap.valueOf r).Describable 0 :=
  h.value heap.length [] hr

/-! ### Room -/

def entered (heap : Heap) (path : List Nat) : List Nat := (heap.map Prod.fst).filter (· ∉ path)

theorem length_entered {id : Nat} {body : Body} (hid : heap.lookup id = some body)
    (hpath : id ∉ path) : (heap.entered (id :: path)).length < (heap.entered path).length := by
  have hmem : id ∈ heap.entered path := by
    obtain ⟨before, after, rfl, -⟩ := List.lookup_eq_some_iff.1 hid
    simp [entered, hpath]
  have hsub : heap.entered (id :: path) = (heap.entered path).filter (· ≠ id) := by
    rw [entered, entered, List.filter_filter]
    exact List.filter_congr fun i _ => by simp [not_or]
  rw [hsub]
  exact List.length_filter_lt_length_iff_exists.2 ⟨id, hmem, by simp⟩

theorem value_succ (h : (heap.entered path).length ≤ room) :
    heap.value (room + 1) path r = heap.value room path r := by
  induction room generalizing path r with
  | zero =>
    cases r with
    | value v => rw [value.eq_1, value.eq_1]
    | object id =>
      cases hid : path.idxOf? id with
      | some up => rw [value.eq_2 _ _ _ _ _ hid, value.eq_2 _ _ _ _ _ hid]
      | none =>
        rw [value.eq_3 _ _ _ hid, value.eq_4 _ _ _ _ hid]
        cases hbody : heap.lookup id with
        | none => rfl
        | some body =>
          have := length_entered hbody (List.idxOf?_eq_none_iff.1 hid)
          omega
  | succ room ih =>
    cases r with
    | value v => rw [value.eq_1, value.eq_1]
    | object id =>
      cases hid : path.idxOf? id with
      | some up => rw [value.eq_2 _ _ _ _ _ hid, value.eq_2 _ _ _ _ _ hid]
      | none =>
        rw [value.eq_4 _ _ _ _ hid, value.eq_4 _ _ _ _ hid]
        cases hbody : heap.lookup id with
        | none => rfl
        | some body =>
          have hlt := length_entered hbody (List.idxOf?_eq_none_iff.1 hid)
          have hpart : heap.value (room + 1) (id :: path) = heap.value room (id :: path) :=
            funext fun r => ih (by omega)
          rw [hpart]

/-- The value of a result is what it is in any room that is large enough. -/
theorem value_of_room (h : heap.length ≤ room) (r : Result) :
    heap.value room [] r = heap.valueOf r := by
  induction h with
  | refl => rfl
  | @step room h ih =>
    rw [value_succ, ih]
    exact Nat.le_trans (List.length_filter_le _ _) (by simpa using h)

end Heap

end Yaml

end Seedbed
