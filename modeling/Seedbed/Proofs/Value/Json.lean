import Mathlib.Logic.Basic
import Seedbed.Value.Json

/-! What stands in a value at any depth, and which values have a JSON text. An integer of any size
has none, a reference to a collection around it has none, and neither has a list or a record in
which one of them stands. All other values have one. -/

namespace Seedbed

section except

variable {ε α β : Type} {x : Except ε α} {f : α → Except ε β}

theorem bind_eq_ok {b : β} : x >>= f = .ok b ↔ ∃ a, x = .ok a ∧ f a = .ok b := by
  cases x <;> simp [bind, Except.bind]

theorem bind_eq_error {e : ε} :
    x >>= f = .error e ↔ x = .error e ∨ ∃ a, x = .ok a ∧ f a = .error e := by
  cases x <;> simp [bind, Except.bind]

theorem map_eq_ok {f : α → β} {b : β} : x.map f = .ok b ↔ ∃ a, x = .ok a ∧ f a = b := by
  cases x <;> simp [Except.map]

theorem map_eq_error {f : α → β} {e : ε} : x.map f = .error e ↔ x = .error e := by
  cases x <;> simp [Except.map]

end except

namespace Value

/-- The items of a list and the values of the fields of a record. Of sets and dictionaries nothing
is written. -/
def parts : Value → List Value
  | list items => items
  | record fields => fields.map Prod.snd
  | _ => []

theorem sizeOf_part {v part : Value} (h : part ∈ v.parts) : sizeOf part < sizeOf v := by
  cases v with
  | list items =>
    have hitem := List.sizeOf_lt_of_mem (show part ∈ items from h)
    simp only [list.sizeOf_spec]
    omega
  | record fields =>
    obtain ⟨⟨name, v⟩, hf, rfl⟩ := List.mem_map.1 h
    have hfield := List.sizeOf_lt_of_mem hf
    simp only [record.sizeOf_spec, Prod.mk.sizeOf_spec] at hfield ⊢
    omega
  | absent | null | bool _ | number _ | integer _ | text _ | symbol _ | instant _ | bytes _ | set _
  | dictionary _ | enclosing _ => cases h

/-- What a value has as soon as its parts have it, every value has. -/
theorem parts_induction {P : Value → Prop} (h : ∀ v : Value, (∀ part ∈ v.parts, P part) → P v)
    (v : Value) : P v :=
  h v fun part _ => parts_induction h part
termination_by sizeOf v
decreasing_by exact sizeOf_part ‹_›

inductive Occurs (x : Value) : Value → Prop
  | here : Occurs x x
  | within {part v : Value} (hp : part ∈ v.parts) (h : Occurs x part) : Occurs x v

/-- An integer of any size, or a list or a record with one at some depth. -/
def HoldsInteger (v : Value) : Prop := ∃ n, Occurs (.integer n) v

/-- A reference to a collection around it, or a list or a record with one at some depth. -/
def IsCircular (v : Value) : Prop := ∃ up, Occurs (.enclosing up) v

theorem HoldsInteger.of_part {v part : Value} (hp : part ∈ v.parts) (h : part.HoldsInteger) :
    v.HoldsInteger :=
  h.imp fun _ h => h.within hp

theorem IsCircular.of_part {v part : Value} (hp : part ∈ v.parts) (h : part.IsCircular) :
    v.IsCircular :=
  h.imp fun _ h => h.within hp

end Value

namespace Json

variable {around : List Link} {e : Failure}

/-! ### What stands in a value with a text -/

/-- A value that has a JSON text in one place at least. -/
def HasText (v : Value) : Prop := ∃ around cs, write around v = .ok cs

theorem hasText_of_writeItems {items : List Value} {i : Nat} {texts : List (List Char)}
    (h : writeItems around i items = .ok texts) : ∀ v ∈ items, HasText v := by
  induction items generalizing i texts with
  | nil => exact nofun
  | cons item rest ih =>
    rw [writeItems] at h
    obtain ⟨text, htext, h⟩ := bind_eq_ok.1 h
    obtain ⟨texts, htexts, -⟩ := bind_eq_ok.1 h
    exact List.forall_mem_cons.2 ⟨⟨_, text, htext⟩, ih htexts⟩

/-- A field is left out, though its value has a text, or it is written. -/
theorem writeFields_cons (around : List Link) (f : String × Value) (rest : List (String × Value)) :
    (HasText f.2 ∧ writeFields around (f :: rest) = writeFields around rest) ∨
    writeFields around (f :: rest) = do
      let part ← write (⟨false, .field f.1⟩ :: around) f.2
      return (quote f.1 ++ ':' :: part) :: (← writeFields around rest) := by
  obtain ⟨name, value⟩ := f
  by_cases ha : value = .absent
  · subst ha
    exact .inl ⟨⟨[], _, rfl⟩, by rw [writeFields]⟩
  by_cases hs : ∃ mark, value = .symbol mark
  · obtain ⟨mark, rfl⟩ := hs
    exact .inl ⟨⟨[], _, rfl⟩, by rw [writeFields]⟩
  · refine .inr ?_
    rw [writeFields]
    · exact ha
    · exact fun mark h => hs ⟨mark, h⟩

theorem hasText_of_writeFields {fields : List (String × Value)} {texts : List (List Char)}
    (h : writeFields around fields = .ok texts) : ∀ f ∈ fields, HasText f.2 := by
  induction fields generalizing texts with
  | nil => exact nofun
  | cons f rest ih =>
    rcases writeFields_cons around f rest with ⟨hf, heq⟩ | heq
    · exact List.forall_mem_cons.2 ⟨hf, ih (heq ▸ h)⟩
    · rw [heq] at h
      obtain ⟨text, htext, h⟩ := bind_eq_ok.1 h
      obtain ⟨texts, htexts, -⟩ := bind_eq_ok.1 h
      exact List.forall_mem_cons.2 ⟨⟨_, text, htext⟩, ih htexts⟩

theorem HasText.part {v part : Value} (h : HasText v) (hp : part ∈ v.parts) : HasText part := by
  obtain ⟨around, cs, h⟩ := h
  cases v with
  | list items =>
    rw [write] at h
    obtain ⟨texts, htexts, -⟩ := bind_eq_ok.1 h
    exact hasText_of_writeItems htexts part hp
  | record fields =>
    rw [write] at h
    obtain ⟨texts, htexts, -⟩ := bind_eq_ok.1 h
    obtain ⟨f, hf, rfl⟩ := List.mem_map.1 hp
    exact hasText_of_writeFields htexts f hf
  | absent | null | bool _ | number _ | integer _ | text _ | symbol _ | instant _ | bytes _ | set _
  | dictionary _ | enclosing _ => cases hp

theorem HasText.of_occurs {x v : Value} (h : HasText v) (hx : x.Occurs v) : HasText x := by
  induction hx with
  | here => exact h
  | within hp _ ih => exact ih (h.part hp)

theorem HasText.not_holdsInteger {v : Value} (h : HasText v) : ¬v.HoldsInteger := by
  rintro ⟨n, hn⟩
  obtain ⟨around, cs, hw⟩ := h.of_occurs hn
  cases hw

theorem HasText.not_isCircular {v : Value} (h : HasText v) : ¬v.IsCircular := by
  rintro ⟨up, hup⟩
  obtain ⟨around, cs, hw⟩ := h.of_occurs hup
  cases hw

/-! ### Why there is no text -/

/-- Why a value has no JSON text. -/
inductive Hindered (v : Value) : Failure → Prop
  | integer (h : v.HoldsInteger) : Hindered v .integerInJson
  | circular (circle : Circle) (h : v.IsCircular) : Hindered v (.circularJson circle)

theorem Hindered.of_part {v part : Value} (hp : part ∈ v.parts) (h : Hindered part e) :
    Hindered v e := by
  cases h with
  | integer h => exact .integer (h.of_part hp)
  | circular circle h => exact .circular circle (h.of_part hp)

theorem exists_of_writeItems {items : List Value} {i : Nat}
    (h : writeItems around i items = .error e) :
    ∃ v ∈ items, ∃ around, write around v = .error e := by
  induction items generalizing i with
  | nil => cases h
  | cons item rest ih =>
    rw [writeItems] at h
    rcases bind_eq_error.1 h with hitem | ⟨text, -, h⟩
    · exact ⟨item, .head _, _, hitem⟩
    · rcases bind_eq_error.1 h with hrest | ⟨texts, -, h⟩
      · exact (ih hrest).imp fun v hv => ⟨.tail _ hv.1, hv.2⟩
      · cases h

theorem exists_of_writeFields {fields : List (String × Value)}
    (h : writeFields around fields = .error e) :
    ∃ f ∈ fields, ∃ around, write around f.2 = .error e := by
  induction fields with
  | nil => cases h
  | cons f rest ih =>
    have hrest (hr : writeFields around rest = .error e) :
        ∃ g ∈ f :: rest, ∃ around, write around g.2 = .error e :=
      (ih hr).imp fun g hg => ⟨.tail _ hg.1, hg.2⟩
    rcases writeFields_cons around f rest with ⟨-, heq⟩ | heq
    · exact hrest (heq ▸ h)
    · rw [heq] at h
      rcases bind_eq_error.1 h with hf | ⟨text, -, h⟩
      · exact ⟨f, .head _, _, hf⟩
      · rcases bind_eq_error.1 h with hr | ⟨texts, -, h⟩
        · exact hrest hr
        · cases h

theorem hindered_of_write {v : Value} (h : write around v = .error e) : Hindered v e := by
  induction v using Value.parts_induction generalizing around with
  | h v ih =>
    cases v with
    | list items =>
      rw [write] at h
      rcases bind_eq_error.1 h with h | ⟨texts, -, h⟩
      · obtain ⟨v, hv, around, hw⟩ := exists_of_writeItems h
        exact (ih v hv hw).of_part hv
      · cases h
    | record fields =>
      rw [write] at h
      rcases bind_eq_error.1 h with h | ⟨texts, -, h⟩
      · obtain ⟨f, hf, around, hw⟩ := exists_of_writeFields h
        have hp : f.2 ∈ (Value.record fields).parts := List.mem_map_of_mem hf
        exact (ih f.2 hp hw).of_part hp
      · cases h
    | integer n =>
      cases h
      exact .integer ⟨n, .here⟩
    | enclosing up =>
      cases h
      exact .circular _ ⟨up, .here⟩
    | bool b => cases b <;> cases h
    | absent | null | number _ | text _ | symbol _ | instant _ | bytes _ | set _ | dictionary _ =>
      cases h

/-- A value has a JSON text, or an integer of any size or a reference to a collection around it
stands in it, and the error says which. -/
theorem write_cases (around : List Link) (v : Value) :
    (¬v.HoldsInteger ∧ ¬v.IsCircular ∧ ∃ cs, write around v = .ok cs) ∨
    ∃ e, Hindered v e ∧ write around v = .error e := by
  cases h : write around v with
  | ok cs =>
    have ht : HasText v := ⟨around, cs, h⟩
    exact .inl ⟨ht.not_holdsInteger, ht.not_isCircular, cs, rfl⟩
  | error e => exact .inr ⟨e, hindered_of_write h, rfl⟩

end Json

end Seedbed
