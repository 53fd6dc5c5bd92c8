import Seedbed.Proofs.Value.Describable
import Seedbed.Proofs.Yaml.Records

/-! The values of the scalars of a YAML text. Each is null, a boolean, a number, a text, a mark, an
instant or bytes, whatever its tag, its style and the version of the text. -/

namespace Seedbed

namespace Yaml

/-! ### Nodes -/

namespace Scalar

variable {version : Version}

theorem isScalar_plainValue (cs : List Char) : (plainValue version cs).IsScalar := by
  unfold plainValue
  split
  · exact .null
  · split
    · exact .bool _
    · exact .number _
    · exact .number _
    · exact .instant _
    · exact .text _

theorem isScalar_of_schemaValue? {tag : String} {cs : List Char} {v : Value}
    (h : schemaValue? version tag cs = some v) : v.IsScalar := by
  unfold schemaValue? at h
  split at h
  · obtain ⟨-, h⟩ := Option.ite_none_right_eq_some.1 h
    cases h
    exact .null
  split at h
  · obtain ⟨b, -, rfl⟩ := Option.map_eq_some_iff.1 h
    exact .bool b
  split at h
  · obtain ⟨x, -, rfl⟩ := Option.map_eq_some_iff.1 h
    exact .number x
  split at h
  · obtain ⟨x, -, rfl⟩ := Option.map_eq_some_iff.1 h
    exact .number x
  split at h
  · obtain ⟨t, -, rfl⟩ := Option.map_eq_some_iff.1 h
    exact .instant t
  split at h
  · obtain ⟨-, h⟩ := Option.ite_none_right_eq_some.1 h
    cases h
    exact .symbol _
  · cases h

theorem isScalar_of_taggedValue? {tag : String} {cs : List Char} {v : Value}
    (h : taggedValue? version tag cs = some v) : v.IsScalar := by
  unfold taggedValue? at h
  split at h
  · cases h
    exact .bytes _
  split at h
  · obtain ⟨t, -, rfl⟩ := Option.map_eq_some_iff.1 h
    exact .instant t
  split at h
  · cases h
    exact .symbol _
  · cases h
    cases hc : schemaValue? version tag cs with
    | none => exact .text _
    | some v => exact isScalar_of_schemaValue? hc

end Scalar

namespace Node

/-- All scalars in a node have values that can be described. -/
inductive Describable : Node → Prop
  | reference (name : String) : Describable (.alias name)
  | scalar {label : Label} {s : Scalar} (h : s.value.IsScalar) : Describable (.scalar label s)
  | seq {label : Label} {items : List Node} (h : ∀ n ∈ items, Describable n) :
      Describable (.seq label items)
  | map {label : Label} {pairs : List (Node × Option Node)} (hk : ∀ p ∈ pairs, Describable p.1)
      (hv : ∀ p ∈ pairs, ∀ n, p.2 = some n → Describable n) : Describable (.map label pairs)

variable {version : Version}

theorem Leaf.describable {n : Node} (h : n.Leaf version) : n.Describable := by
  cases h with
  | reference name => exact .reference name
  | @scalar label s h =>
    refine .scalar ?_
    rw [Valued, scalarValue?] at h
    split at h
    · exact Scalar.isScalar_of_taggedValue? h
    · rw [← Option.some.inj h]
      split
      · exact Scalar.isScalar_plainValue s.text
      · exact .text _

/-- A mark of merges in the place of a text can be described, too. -/
theorem Describable.asKey {n : Node} (h : n.Describable) : (n.asKey version).Describable := by
  cases h with
  | @scalar label s h =>
    rw [Node.asKey]
    split
    · refine .scalar ?_
      dsimp only
      split
      · exact .symbol _
      · exact h
    · exact .scalar h
  | reference name => exact .reference name
  | seq h => exact .seq h
  | map hk hv => exact .map hk hv

theorem Describable.pair {label : Label} {key : Node} {value : Option Node} (hk : key.Describable)
    (hv : ∀ n, value = some n → n.Describable) : Describable (.map label [(key, value)]) := by
  refine .map ?_ ?_
  · simpa using hk
  · simpa using hv

theorem Describable.asPair {n : Node} (h : n.Describable) : n.asPair.Describable := by
  unfold Node.asPair
  split
  · exact .pair (.scalar .null) nofun
  · cases h with
    | map hk hv => exact .map hk hv
  · exact .pair h nofun

structure Reading.Describable (r : Reading) : Prop where
  keys : ∀ p ∈ r.pairs, p.1.Describable
  values : ∀ p ∈ r.pairs, ∀ n, p.2 = some n → n.Describable
  items : ∀ n ∈ r.items, n.Describable

theorem Collected.describable {r : Reading} {n : Node} (hr : r.Describable) (h : Collected r n) :
    n.Describable := by
  cases h with
  | map label =>
    exact .map (fun p hp => hr.keys p (List.mem_reverse.1 hp))
      fun p hp => hr.values p (List.mem_reverse.1 hp)
  | seq label => exact .seq fun n hn => hr.items n (List.mem_reverse.1 hn)
  | pairs label =>
    refine .seq fun n hn => ?_
    obtain ⟨item, hitem, rfl⟩ := List.mem_map.1 hn
    exact (hr.items item (List.mem_reverse.1 hitem)).asPair

section reading

variable {directives : Directives} {r r' : Reading}

theorem Reading.Adds.describable {entry : Entry}
    (hkey : ∀ n, Read directives n entry.key → n.Describable)
    (hvalue : ∀ n, Read directives n entry.value → n.Describable) (h : r.Adds directives entry r')
    (hr : r.Describable) : r'.Describable := by
  cases h with
  | nothing hp hi => exact ⟨hp ▸ hr.keys, hp ▸ hr.values, hi ▸ hr.items⟩
  | item hn hp hi =>
    refine ⟨hp ▸ hr.keys, hp ▸ hr.values, ?_⟩
    rw [hi, List.forall_mem_cons]
    exact ⟨hvalue _ hn, hr.items⟩
  | pair key value hk hv hnew hp hi =>
    refine ⟨?_, ?_, hi ▸ hr.items⟩
    · rw [hp, List.forall_mem_cons]
      exact ⟨(hkey key hk).asKey, hr.keys⟩
    · rw [hp, List.forall_mem_cons]
      exact ⟨fun n hn => hvalue n (hv n hn), hr.values⟩
  | pairItem key value hk hv hp hi =>
    refine ⟨hp ▸ hr.keys, hp ▸ hr.values, ?_⟩
    rw [hi, List.forall_mem_cons]
    exact ⟨.pair (hkey key hk).asKey fun n hn => hvalue n (hv n hn), hr.items⟩

theorem Reading.Run.describable {entries : List Entry}
    (hkeys : ∀ e ∈ entries, ∀ n, Read directives n e.key → n.Describable)
    (hvalues : ∀ e ∈ entries, ∀ n, Read directives n e.value → n.Describable)
    (h : r.Run directives entries r') (hr : r.Describable) : r'.Describable := by
  induction h with
  | nil r => exact hr
  | cons hadds _ ih =>
    rw [List.forall_mem_cons] at hkeys hvalues
    exact ih hkeys.2 hvalues.2 (hadds.describable hkeys.1 hvalues.1 hr)

end reading

end Node

theorem Layout.sizeOf_entry {l : Layout} {entry : Entry} (h : entry ∈ l.entries) :
    sizeOf entry.key < sizeOf l ∧ sizeOf entry.value < sizeOf l := by
  obtain ⟨start, isExplicit, key, sep, value⟩ := entry
  cases l with
  | scalar token trail | block offset indent header text => cases h
  | blockMap _ _ entries | blockSeq _ _ entries | flow _ _ entries _ =>
    have hentry := List.sizeOf_lt_of_mem (show _ ∈ entries from h)
    simp at hentry ⊢
    omega

theorem Node.Read.describable {directives : Directives} {n : Node} {l : Option Layout}
    (h : Read directives n l) : n.Describable := by
  cases h with
  | empty h => exact (leaf_of_empty? h).describable
  | @layout _ _ l _ h =>
    rcases ofLayout?_cases h with hleaf | ⟨offset, r, hrun, hc⟩
    · exact hleaf.describable
    · refine hc.describable (hrun.describable (fun e he n hn => ?_) (fun e he n hn => ?_) ?_)
      · have := (Layout.sizeOf_entry he).1
        exact Read.describable hn
      · have := (Layout.sizeOf_entry he).2
        exact Read.describable hn
      · exact ⟨by simp, by simp, by simp⟩
termination_by sizeOf l
decreasing_by
  all_goals
    simp only [Option.some.sizeOf_spec]
    omega

end Yaml

end Seedbed
