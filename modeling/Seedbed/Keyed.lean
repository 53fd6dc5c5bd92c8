/-! Entries kept under string keys in the order of first writing. Writing a key again replaces
its value and keeps its place, so no key stands twice. The view is `Keyed.entries`; each
operation has one lemma on the keys and one on `Keyed.get?`. -/

namespace Seedbed

universe u v

/-- Writes a value under a key: in place where the key stands already, at the end otherwise. -/
def putEntry {α : Type u} (key : String) (value : α) : List (String × α) → List (String × α)
  | [] => [(key, value)]
  | (k, v) :: rest => if k = key then (key, value) :: rest else (k, v) :: putEntry key value rest

theorem map_fst_putEntry {α : Type u} (key : String) (value : α) (entries : List (String × α)) :
    (putEntry key value entries).map Prod.fst =
      if key ∈ entries.map Prod.fst then entries.map Prod.fst
      else entries.map Prod.fst ++ [key] := by
  induction entries with
  | nil => simp [putEntry]
  | cons e rest ih =>
    obtain ⟨k, v⟩ := e
    by_cases h : k = key
    · simp [putEntry, h]
    · have h' : ¬ key = k := fun e => h e.symm
      by_cases hm : key ∈ rest.map Prod.fst <;> simp_all [putEntry]

theorem lookup_cons_eq {α : Type u} (l k : String) (v : α) (rest : List (String × α)) :
    ((k, v) :: rest).lookup l = if l = k then some v else rest.lookup l := by
  by_cases h : l = k
  · simp [h]
  · simp [List.lookup_cons, h, beq_eq_false_iff_ne.2 h]

theorem lookup_putEntry {α : Type u} (key l : String) (value : α) (entries : List (String × α)) :
    (putEntry key value entries).lookup l =
      if l = key then some value else entries.lookup l := by
  induction entries with
  | nil => simp [putEntry, lookup_cons_eq]
  | cons e rest ih =>
    obtain ⟨k, v⟩ := e
    by_cases h : k = key
    · subst h
      by_cases hl : l = k <;> simp [putEntry, lookup_cons_eq, hl]
    · by_cases hl : l = k
      · subst hl
        simp [putEntry, h]
      · simp [putEntry, h, lookup_cons_eq, hl, ih]

/-- Entries with pairwise distinct keys, in the order of first writing. -/
structure Keyed (α : Type u) where
  entries : List (String × α)
  nodup : (entries.map Prod.fst).Nodup := by simp

namespace Keyed

variable {α : Type u} {β : Type v}

def empty : Keyed α where
  entries := []

instance : EmptyCollection (Keyed α) := ⟨empty⟩

instance : Inhabited (Keyed α) := ⟨empty⟩

def keys (m : Keyed α) : List String := m.entries.map Prod.fst

def size (m : Keyed α) : Nat := m.entries.length

def get? (m : Keyed α) (key : String) : Option α := m.entries.lookup key

def contains (m : Keyed α) (key : String) : Bool := (m.get? key).isSome

def insert (m : Keyed α) (key : String) (value : α) : Keyed α where
  entries := putEntry key value m.entries
  nodup := by
    rw [map_fst_putEntry]
    split
    · exact m.nodup
    · rename_i h
      exact List.nodup_append.2 ⟨m.nodup, by simp, fun a ha b hb => by simp_all; grind⟩

def ofList (entries : List (String × α)) : Keyed α :=
  entries.foldl (fun m e => m.insert e.1 e.2) ∅

def map (f : α → β) (m : Keyed α) : Keyed β where
  entries := m.entries.map fun e => (e.1, f e.2)
  nodup := by simpa [Function.comp_def] using m.nodup

@[simp] theorem entries_empty : (∅ : Keyed α).entries = [] := rfl

@[simp] theorem entries_insert (m : Keyed α) (key : String) (value : α) :
    (m.insert key value).entries = putEntry key value m.entries := rfl

theorem keys_insert (m : Keyed α) (key : String) (value : α) :
    (m.insert key value).keys = if key ∈ m.keys then m.keys else m.keys ++ [key] :=
  map_fst_putEntry key value m.entries

@[simp] theorem get?_empty (key : String) : (∅ : Keyed α).get? key = none := rfl

theorem get?_insert (m : Keyed α) (key l : String) (value : α) :
    (m.insert key value).get? l = if l = key then some value else m.get? l :=
  lookup_putEntry key l value m.entries

end Keyed

end Seedbed
