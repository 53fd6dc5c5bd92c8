import Mathlib.Data.List.Nodup
import Seedbed.Keyed.Arranged

/-! Entries that are written one after the other. Of the values written under a key the last one
stands there, no entry has a value that was not written, and the entries stay as they are if their
keys differ. -/

namespace Seedbed

theorem putEntry_of_not_mem {α : Type} {key : String} {value : α} {entries : List (String × α)}
    (h : key ∉ entries.map Prod.fst) : putEntry key value entries = entries ++ [(key, value)] := by
  induction entries with
  | nil => rfl
  | cons e entries ih =>
    rw [List.map_cons, List.mem_cons, not_or] at h
    rw [putEntry, if_neg fun he => h.1 he.symm, ih h.2]
    rfl

theorem mem_putEntry {α : Type} {key : String} {value : α} {entries : List (String × α)}
    {e : String × α} (h : e ∈ putEntry key value entries) : e = (key, value) ∨ e ∈ entries := by
  induction entries with
  | nil => exact .inl (List.mem_singleton.1 h)
  | cons e' entries ih =>
    rw [putEntry] at h
    split at h
    · exact (List.mem_cons.1 h).imp_right (List.mem_cons_of_mem _)
    · rcases List.mem_cons.1 h with rfl | h
      · exact .inr List.mem_cons_self
      · exact (ih h).imp_right (List.mem_cons_of_mem _)

theorem mem_foldl_putEntry {α : Type} {entries fields : List (String × α)} {e : String × α}
    (h : e ∈ entries.foldl (fun fields e => putEntry e.1 e.2 fields) fields) :
    e ∈ entries ∨ e ∈ fields := by
  induction entries generalizing fields with
  | nil => exact .inr h
  | cons e' entries ih =>
    rcases ih h with h | h
    · exact .inl (List.mem_cons_of_mem _ h)
    · rcases mem_putEntry h with rfl | h
      · exact .inl List.mem_cons_self
      · exact .inr h

theorem mem_arrange {α : Type} {entries : List (String × α)} {e : String × α}
    (h : e ∈ arrange entries) : e ∈ entries := by
  rw [arrange, List.mem_append] at h
  rcases h with h | h
  · obtain ⟨⟨n, e'⟩, hp, rfl⟩ := List.mem_map.1 h
    rw [positioned, List.mem_mergeSort, List.mem_filterMap] at hp
    obtain ⟨e, he, hp⟩ := hp
    obtain ⟨n', -, hn⟩ := Option.map_eq_some_iff.1 hp
    cases hn
    exact he
  · exact List.mem_of_mem_filter h

/-- No field has a value that was not written. -/
theorem mem_fieldsOf {α : Type} {entries : List (String × α)} {e : String × α}
    (h : e ∈ fieldsOf entries) : e ∈ entries := by
  rcases mem_foldl_putEntry (mem_arrange h) with h | h
  · exact h
  · cases h

theorem eraseDups_of_nodup {l : List String} (h : l.Nodup) : l.eraseDups = l := by
  induction l with
  | nil => rfl
  | cons a l ih =>
    rw [List.nodup_cons] at h
    have hkept : l.filter (fun b => !b == a) = l :=
      List.filter_eq_self.2 fun b hb => by
        have hne : b ≠ a := fun heq => h.1 (heq ▸ hb)
        simpa using hne
    rw [List.eraseDups_cons, hkept, ih h.2]

namespace Keyed

variable {α : Type}

theorem get?_foldl (m : Keyed α) (entries : List (String × α)) (key : String) :
    (entries.foldl (fun m e => m.insert e.1 e.2) m).get? key =
      (entries.reverse.lookup key).or (m.get? key) := by
  induction entries generalizing m with
  | nil => rfl
  | cons e entries ih =>
    obtain ⟨k, v⟩ := e
    rw [List.foldl_cons, ih, get?_insert, List.reverse_cons, List.lookup_append, lookup_cons_eq]
    cases entries.reverse.lookup key with
    | some v' => rfl
    | none =>
      by_cases h : key = k
      · simp [h]
      · simp [h]

/-- Of the values written under a key the last one stands there. -/
theorem get?_ofList (entries : List (String × α)) (key : String) :
    (ofList entries).get? key = entries.reverse.lookup key := by
  rw [ofList, get?_foldl, get?_empty, Option.or_none]

theorem size_insert (m : Keyed α) (key : String) (value : α) :
    (m.insert key value).size = if key ∈ m.keys then m.size else m.size + 1 := by
  have h := congrArg List.length (keys_insert m key value)
  rw [keys, List.length_map] at h
  rw [size, h]
  split
  · rw [keys, List.length_map, size]
  · rw [List.length_append, keys, List.length_map, size]
    rfl

/-- No entry is lost just if all keys differ. -/
theorem size_foldl (m : Keyed α) (entries : List (String × α)) :
    (entries.foldl (fun m e => m.insert e.1 e.2) m).size ≤ m.size + entries.length ∧
      ((entries.foldl (fun m e => m.insert e.1 e.2) m).size = m.size + entries.length ↔
        (m.keys ++ entries.map Prod.fst).Nodup) := by
  induction entries generalizing m with
  | nil =>
    refine ⟨Nat.le_refl _, fun _ => ?_, fun _ => rfl⟩
    rw [List.map_nil, List.append_nil]
    exact m.nodup
  | cons e entries ih =>
    obtain ⟨k, v⟩ := e
    obtain ⟨hle, hiff⟩ := ih (m.insert k v)
    rw [size_insert] at hle hiff
    rw [keys_insert] at hiff
    rw [List.foldl_cons, List.length_cons, List.map_cons]
    dsimp only
    by_cases hk : k ∈ m.keys
    · rw [if_pos hk] at hle
      refine ⟨by omega, fun h => by omega, fun h => ?_⟩
      exact absurd rfl ((List.nodup_append.1 h).2.2 k hk k List.mem_cons_self)
    · rw [if_neg hk] at hle hiff
      rw [if_neg hk, List.append_assoc, List.singleton_append] at hiff
      rw [← hiff]
      omega

theorem entries_foldl {m : Keyed α} {entries : List (String × α)}
    (h : (m.keys ++ entries.map Prod.fst).Nodup) :
    (entries.foldl (fun m e => m.insert e.1 e.2) m).entries = m.entries ++ entries := by
  induction entries generalizing m with
  | nil => exact (List.append_nil _).symm
  | cons e entries ih =>
    obtain ⟨k, v⟩ := e
    have hk : k ∉ m.keys := fun hk => (List.nodup_append.1 h).2.2 k hk k List.mem_cons_self rfl
    have hkeys := keys_insert m k v
    rw [if_neg hk] at hkeys
    rw [List.foldl_cons, ih, entries_insert, putEntry_of_not_mem hk, List.append_assoc]
    · rfl
    · rw [hkeys, List.append_assoc]
      exact h

/-- Entries with keys that differ stay as they are. -/
theorem entries_ofList {entries : List (String × α)} (h : (entries.map Prod.fst).Nodup) :
    (ofList entries).entries = entries := entries_foldl h

theorem ofList_entries (m : Keyed α) : ofList m.entries = m := by
  have h := entries_ofList m.nodup
  cases hm : ofList m.entries with
  | mk entries nodup =>
    cases m
    rw [hm] at h
    cases h
    rfl

theorem size_ofList (entries : List (String × α)) :
    (ofList entries).size = entries.length ↔ (entries.map Prod.fst).Nodup := by
  have h := (size_foldl ∅ entries).2
  rw [show (∅ : Keyed α).size = 0 from rfl, Nat.zero_add] at h
  exact h

theorem keys_foldl (m : Keyed α) (entries : List (String × α)) :
    (entries.foldl (fun m e => m.insert e.1 e.2) m).keys =
      (m.keys ++ entries.map Prod.fst).eraseDups := by
  induction entries generalizing m with
  | nil =>
    have hkeys : m.keys.Nodup := m.nodup
    rw [List.map_nil, List.append_nil, eraseDups_of_nodup hkeys]
    rfl
  | cons e entries ih =>
    obtain ⟨k, v⟩ := e
    rw [List.foldl_cons, ih, keys_insert, List.map_cons]
    split
    · rename_i hk
      rw [List.eraseDups_append, List.eraseDups_append, List.cons_removeAll, if_neg]
      simpa using hk
    · rw [List.append_assoc]
      rfl

theorem mem_entries_iff {m : Keyed α} {key : String} {value : α} :
    (key, value) ∈ m.entries ↔ m.get? key = some value := by
  rw [get?, List.lookup_eq_some_iff]
  constructor
  · intro h
    obtain ⟨before, after, hsplit⟩ := List.append_of_mem h
    refine ⟨before, after, hsplit, fun p hp => bne_iff_ne.2 ?_⟩
    have hn := m.nodup
    rw [hsplit, List.map_append, List.nodup_append] at hn
    exact (hn.2.2 _ (List.mem_map_of_mem hp) _ List.mem_cons_self).symm
  · rintro ⟨before, after, hsplit, -⟩
    rw [hsplit]
    exact List.mem_append_right _ List.mem_cons_self

theorem get?_of_perm {m m' : Keyed α} (h : m'.entries.Perm m.entries) (key : String) :
    m'.get? key = m.get? key :=
  Option.ext fun value => by rw [← mem_entries_iff, ← mem_entries_iff, h.mem_iff]

theorem contains_iff {m : Keyed α} {key : String} : m.contains key = true ↔ key ∈ m.keys := by
  rw [contains, Option.isSome_iff_exists, keys, List.mem_map]
  constructor
  · rintro ⟨value, hv⟩
    exact ⟨(key, value), mem_entries_iff.2 hv, rfl⟩
  · rintro ⟨⟨k, value⟩, he, rfl⟩
    exact ⟨value, mem_entries_iff.1 he⟩

theorem entries_foldl_insert (m : Keyed α) (entries : List (String × α)) :
    (entries.foldl (fun m e => m.insert e.1 e.2) m).entries =
      entries.foldl (fun fields e => putEntry e.1 e.2 fields) m.entries := by
  induction entries generalizing m with
  | nil => rfl
  | cons e entries ih => exact ih (m.insert e.1 e.2)

theorem mem_ofList {entries : List (String × α)} {e : String × α}
    (h : e ∈ (ofList entries).entries) : e ∈ entries := by
  rw [ofList, entries_foldl_insert] at h
  rcases mem_foldl_putEntry h with h | h
  · exact h
  · cases h

end Keyed

end Seedbed
