import Seedbed.Proofs.Value.Json

/-! Values that a text can describe. Unlike values of any other origin they hold no integer of any
size, and a collection in them stands within itself only where its place is held by a reference, so
each of its references is to a collection around it. The parts of such a value, opened as values by
themselves, are of this kind again. -/

namespace Seedbed

namespace Value

inductive IsScalar : Value → Prop
  | null : IsScalar .null
  | bool (b : Bool) : IsScalar (.bool b)
  | number (x : Binary64) : IsScalar (.number x)
  | text (s : String) : IsScalar (.text s)
  | symbol (name : String) : IsScalar (.symbol name)
  | instant (t : Instant) : IsScalar (.instant t)
  | bytes (bs : List UInt8) : IsScalar (.bytes bs)

/-- A value that a text can describe, in so many collections that its references can be to. Only a
field of a record can be absent. -/
inductive Describable : Nat → Value → Prop
  | scalar {n : Nat} {v : Value} (h : v.IsScalar) : Describable n v
  | list {n : Nat} {items : List Value} (h : ∀ v ∈ items, Describable (n + 1) v) :
      Describable n (.list items)
  | record {n : Nat} {fields : List (String × Value)}
      (h : ∀ f ∈ fields, f.2 ≠ .absent → Describable (n + 1) f.2) : Describable n (.record fields)
  | set {n : Nat} {members : List Value} (h : ∀ v ∈ members, Describable (n + 1) v) :
      Describable n (.set members)
  | dictionary {n : Nat} {entries : List (Value × Value)}
      (hk : ∀ e ∈ entries, Describable (n + 1) e.1) (hv : ∀ e ∈ entries, Describable (n + 1) e.2) :
      Describable n (.dictionary entries)
  | enclosing {n up : Nat} (h : up < n) : Describable n (.enclosing up)

namespace Describable

variable {n : Nat} {v : Value}

theorem ne_absent (h : v.Describable n) : v ≠ .absent := by
  rintro rfl
  cases h with
  | scalar h => cases h

theorem ne_enclosing (h : v.Describable 0) (up : Nat) : v ≠ .enclosing up := by
  rintro rfl
  cases h with
  | scalar h => cases h
  | enclosing h => exact absurd h (Nat.not_lt_zero _)

theorem mono {m : Nat} (h : v.Describable n) (hle : n ≤ m) : v.Describable m := by
  induction h generalizing m with
  | scalar h => exact .scalar h
  | list _ ih => exact .list fun v hv => ih v hv (by omega)
  | record _ ih => exact .record fun f hf hne => ih f hf hne (by omega)
  | set _ ih => exact .set fun v hv => ih v hv (by omega)
  | dictionary _ _ ihk ihv =>
    exact .dictionary (fun e he => ihk e he (by omega)) fun e he => ihv e he (by omega)
  | enclosing h => exact .enclosing (by omega)

theorem part {x : Value} (h : v.Describable n) (hp : x ∈ v.parts) (hne : x ≠ .absent) :
    x.Describable (n + 1) := by
  cases h with
  | list h => exact h x hp
  | record h =>
    obtain ⟨f, hf, rfl⟩ := List.mem_map.1 hp
    exact h f hf hne
  | scalar h => cases h <;> cases hp
  | set _ | dictionary _ _ | enclosing _ => cases hp

/-- What stands in a value is described in more collections, unless it is absent. -/
theorem of_occurs {x : Value} (h : v.Describable n) (hx : x.Occurs v) (hne : x ≠ .absent) :
    ∃ m, x.Describable m := by
  induction hx generalizing n with
  | here => exact ⟨n, h⟩
  | @within part v hp hx ih =>
    refine ih (h.part hp ?_)
    rintro rfl
    cases hx with
    | here => exact hne rfl
    | within hp _ => cases hp

theorem not_holdsInteger (h : v.Describable n) : ¬v.HoldsInteger := by
  rintro ⟨i, hi⟩
  obtain ⟨m, hm⟩ := h.of_occurs hi nofun
  cases hm with
  | scalar h => cases h

end Describable

/-! ### Parts by themselves -/

theorem itemsWithin_eq_map (outer : Nat → Value) (depth : Nat) (items : List Value) :
    itemsWithin outer depth items = items.map (within outer depth) := by
  induction items with
  | nil => rfl
  | cons item rest ih => rw [itemsWithin, List.map_cons, ih]

theorem fieldsWithin_eq_map (outer : Nat → Value) (depth : Nat) (fields : List (String × Value)) :
    fieldsWithin outer depth fields = fields.map fun f => (f.1, within outer depth f.2) := by
  induction fields with
  | nil => rfl
  | cons f rest ih => rw [fieldsWithin, List.map_cons, ih]

theorem entriesWithin_eq_map (outer : Nat → Value) (depth : Nat) (entries : List (Value × Value)) :
    entriesWithin outer depth entries =
      entries.map fun e => (within outer depth e.1, within outer depth e.2) := by
  induction entries with
  | nil => rfl
  | cons e rest ih => rw [entriesWithin, List.map_cons, ih]

/-- With a value in the place of the outermost of its collections, a value is one in the others. -/
theorem Describable.within {outer : Nat → Value} (ho : ∀ depth, (outer depth).Describable depth)
    {v : Value} {n depth : Nat} (h : v.Describable n) (hn : n = depth + 1) :
    (v.within outer depth).Describable depth := by
  induction h generalizing depth with
  | scalar h => cases h <;> exact .scalar (by constructor)
  | list _ ih =>
    rw [Value.within, itemsWithin_eq_map]
    exact .list (List.forall_mem_map.2 fun v hv => ih v hv (by omega))
  | record _ ih =>
    rw [Value.within, fieldsWithin_eq_map]
    refine .record (List.forall_mem_map.2 fun f hf hne => ih f hf ?_ (by omega))
    intro habsent
    rw [habsent] at hne
    exact hne rfl
  | set _ ih =>
    rw [Value.within, itemsWithin_eq_map]
    exact .set (List.forall_mem_map.2 fun v hv => ih v hv (by omega))
  | dictionary _ _ ihk ihv =>
    rw [Value.within, entriesWithin_eq_map]
    exact .dictionary (List.forall_mem_map.2 fun e he => ihk e he (by omega))
      (List.forall_mem_map.2 fun e he => ihv e he (by omega))
  | @enclosing _ up h =>
    rw [Value.within]
    split
    · exact ho depth
    · exact .enclosing (by omega)

/-- The items of a list, each as a value by itself, refer to collections around them no more. -/
theorem Describable.itemsOf {items : List Value} (h : ∀ v ∈ items, v.Describable 1) :
    ∀ v ∈ itemsOf items, v.Describable 0 := by
  refine List.forall_mem_map.2 fun p hp => ?_
  obtain ⟨v, i⟩ := p
  refine (h v (List.fst_mem_of_mem_zipIdx hp)).within (fun depth => .list ?_) rfl
  split
  · exact fun v hv => (h v hv).mono (by omega)
  · intro v hv
    rcases List.mem_or_eq_of_mem_set hv with hv | rfl
    · exact (h v hv).mono (by omega)
    · exact .enclosing (by omega)

theorem Describable.valuesOf {fields : List (String × Value)}
    (h : ∀ f ∈ fields, f.2 ≠ .absent → f.2.Describable 1) :
    ∀ f ∈ valuesOf fields, f.2 ≠ .absent → f.2.Describable 0 := by
  refine List.forall_mem_map.2 fun p hp hne => ?_
  obtain ⟨⟨name, v⟩, i⟩ := p
  have hv : v.Describable 1 := by
    refine h (name, v) (List.fst_mem_of_mem_zipIdx hp) ?_
    rintro rfl
    exact hne rfl
  refine hv.within (fun depth => .record ?_) rfl
  split
  · exact fun f hf hne => (h f hf hne).mono (by omega)
  · intro f hf hne
    rcases List.mem_or_eq_of_mem_set hf with hf | rfl
    · exact (h f hf hne).mono (by omega)
    · exact .enclosing (by omega)

end Value

end Seedbed
