import Mathlib.Data.Finset.Card
import Seedbed.Proofs.Keyed.Arranged
import Seedbed.Registry

/-! What a registry holds after inserts, said of the inserts alone, and what comes back when its
entries are written as the fields of a record and read again. Fields have an order of their own, so
the entries can change places, but no label is lost and each keeps its identifier. -/

namespace Seedbed

namespace Registry

def insertAll (r : Registry) (inserts : List (String × String)) : Registry :=
  inserts.foldl (fun r p => r.insert p.1 p.2) r

def IsLast (inserts : List (String × String)) (label id : String) : Prop :=
  ∃ before after, inserts = before ++ (label, id) :: after ∧ label ∉ after.map Prod.fst

/-- Every label is listed once, in the order of first inserts, with the identifier of the last. -/
structure Holds (r : Registry) (inserts : List (String × String)) : Prop where
  lookup : ∀ label id, r.lookup label = some id ↔ IsLast inserts label id
  has : ∀ label, r.has label = true ↔ label ∈ inserts.map Prod.fst
  size : r.size = (inserts.map Prod.fst).toFinset.card
  labels : r.entries.map Prod.fst = (inserts.map Prod.fst).eraseDups
  entries : ∀ label id, (label, id) ∈ r.entries ↔ IsLast inserts label id

/-- The registry that is read from the record that the entries are written as. -/
def restored (r : Registry) : Registry := ofEntries r.toFields

/-- The same identifiers under the same labels: first under those that are positions, ascending, and
then under the others as they stand. -/
structure Restores (r r' : Registry) : Prop where
  lookup : ∀ label, r'.lookup label = r.lookup label
  has : ∀ label, r'.has label = r.has label
  size : r'.size = r.size
  entries : ∃ positions : List (String × String),
    r'.entries = positions ++ r.entries.filter (fun e => ¬IsPosition e.1) ∧
    positions.Perm (r.entries.filter fun e => IsPosition e.1) ∧
    positions.Pairwise fun e f => ∃ m n : Nat, e.1 = toString m ∧ f.1 = toString n ∧ m < n

/-! ### Inserts -/

theorem isLast_iff {inserts : List (String × String)} {label id : String} :
    IsLast inserts label id ↔ inserts.reverse.lookup label = some id := by
  rw [List.lookup_eq_some_iff]
  constructor
  · rintro ⟨before, after, rfl, hafter⟩
    refine ⟨after.reverse, before.reverse, by simp, fun p hp => bne_iff_ne.2 ?_⟩
    rintro rfl
    exact hafter (List.mem_map_of_mem (List.mem_reverse.1 hp))
  · rintro ⟨after, before, hsplit, hafter⟩
    refine ⟨before.reverse, after.reverse, ?_, fun hmem => ?_⟩
    · rw [← List.reverse_inj, hsplit]
      simp
    · obtain ⟨p, hp, rfl⟩ := List.mem_map.1 hmem
      exact bne_iff_ne.1 (hafter p (List.mem_reverse.1 hp)) rfl

theorem ids_insertAll (r : Registry) (inserts : List (String × String)) :
    (r.insertAll inserts).ids = inserts.foldl (fun m e => m.insert e.1 e.2) r.ids := by
  induction inserts generalizing r with
  | nil => rfl
  | cons p inserts ih => exact ih (r.insert p.1 p.2)

/-- The entries of a registry are inserts that lead to it. -/
theorem insertAll_eq (r : Registry) (inserts : List (String × String)) :
    r.insertAll inserts = ofEntries (r.entries ++ inserts) := by
  have hids : (r.insertAll inserts).ids = (ofEntries (r.entries ++ inserts)).ids :=
    calc (r.insertAll inserts).ids
        = inserts.foldl (fun m e => m.insert e.1 e.2) r.ids := ids_insertAll r inserts
      _ = inserts.foldl (fun m e => m.insert e.1 e.2) (.ofList r.ids.entries) := by
          rw [Keyed.ofList_entries]
      _ = .ofList (r.entries ++ inserts) := List.foldl_append.symm
  exact congrArg mk hids

theorem size_eq_card {r : Registry} {labels : List String}
    (h : ∀ label, r.has label = true ↔ label ∈ labels) : r.size = labels.toFinset.card := by
  have hsame : r.ids.keys.toFinset = labels.toFinset := by
    ext label
    rw [List.mem_toFinset, List.mem_toFinset, ← h, has, Keyed.contains_iff]
  have hkeys : r.ids.keys.Nodup := r.ids.nodup
  rw [← hsame, List.toFinset_card_of_nodup hkeys]
  exact (List.length_map _).symm

theorem ofEntries_holds (inserts : List (String × String)) : (ofEntries inserts).Holds inserts := by
  have hlookup : ∀ label id, (ofEntries inserts).lookup label = some id ↔ IsLast inserts label id :=
    fun label id => by rw [isLast_iff, ← Keyed.get?_ofList]; rfl
  have hlabels : (ofEntries inserts).ids.keys = (inserts.map Prod.fst).eraseDups :=
    Keyed.keys_foldl ∅ inserts
  have hhas : ∀ label, (ofEntries inserts).has label = true ↔ label ∈ inserts.map Prod.fst := by
    intro label
    rw [has, Keyed.contains_iff, hlabels, List.mem_eraseDups]
  exact ⟨hlookup, hhas, size_eq_card hhas, hlabels, fun label id =>
    Keyed.mem_entries_iff.trans (hlookup label id)⟩

/-! ### The way through a record -/

theorem entries_restored (r : Registry) : r.restored.entries = arrange r.entries := by
  have hn : ((arrange r.entries).map Prod.fst).Nodup :=
    ((arrange_perm r.entries).map Prod.fst).nodup_iff.2 r.ids.nodup
  exact Keyed.entries_ofList hn

theorem restores (r : Registry) : Restores r r.restored := by
  have hperm : r.restored.entries.Perm r.entries := by
    rw [entries_restored]
    exact arrange_perm r.entries
  have hget := Keyed.get?_of_perm hperm
  refine ⟨hget, fun label => congrArg Option.isSome (hget label), hperm.length_eq,
    (positioned r.entries).map (·.2), ?_, positioned_perm r.entries, positioned_lt _ r.ids.nodup⟩
  rw [entries_restored, arrange, filter_isNone]

/-- Entries that are written and read once more stay as they are. -/
theorem restored_restored (r : Registry) : r.restored.restored = r.restored := by
  have hentries : arrange r.restored.entries = r.restored.entries := by
    rw [entries_restored, arrange_arrange]
  rw [restored, toFields, hentries]
  exact congrArg mk (Keyed.ofList_entries _)

/-- Whatever is inserted into a registry, its look-ups, its size and its entries are as the inserts
say. Written as a record and read again, it has the same identifiers under the same labels, and from
then on their order stays. -/
theorem inserts_restored (r : Registry) (inserts : List (String × String)) :
    (r.insertAll inserts).Holds (r.entries ++ inserts) ∧
      (r.insertAll inserts).Restores (r.insertAll inserts).restored ∧
      (r.insertAll inserts).restored.restored = (r.insertAll inserts).restored := by
  refine ⟨?_, restores _, restored_restored _⟩
  rw [insertAll_eq]
  exact ofEntries_holds _

example : (ofEntries [("b", "1"), ("1200", "2"), ("__proto__", "3"), ("", "4"), ("7", "5"),
    ("07", "6"), ("b", "8")]).restored.entries =
      [("7", "5"), ("1200", "2"), ("b", "8"), ("__proto__", "3"), ("", "4"), ("07", "6")] := by
  cbv

end Registry

end Seedbed
