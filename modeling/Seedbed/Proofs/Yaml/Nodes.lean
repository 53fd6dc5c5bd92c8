import Seedbed.Yaml.Document

/-! How the nodes of a YAML text come about. A node is a leaf, or a collection of what its entries
add one after the other, and each entry adds at most one item or one pair of nodes that come about
in the same way. What every entry preserves therefore holds of every collection. -/

namespace Seedbed

namespace Yaml

theorem of_guard {α : Type} {c : Prop} [Decidable c] {f : PUnit → Option α} {x : α}
    (h : (if c then (none : Option PUnit) >>= f else f ⟨⟩) = some x) : ¬c ∧ f ⟨⟩ = some x := by
  split at h
  · cases h
  · exact ⟨‹_›, h⟩

theorem of_choice {α : Type} {c : Prop} [Decidable c] {a b x : Option α}
    (h : (if c then a else b) = x) : a = x ∨ b = x := by
  split at h
  · exact .inl h
  · exact .inr h

def Layout.entries : Layout → List Entry
  | blockMap _ _ entries | blockSeq _ _ entries | flow _ _ entries _ => entries
  | _ => []

namespace Node

/-! ### Leaves -/

/-- The value that a scalar has by its label, its style and its text, if a plain one without a tag
has the value `plain`. -/
def scalarValue? (plain : List Char → Value) (version : Version) (label : Label) (style : Style)
    (text : List Char) : Option Value :=
  match label.tag with
  | some tag => Scalar.taggedValue? version tag text
  | none => some (if style = .plain then plain text else .text (.ofList text))

def Valued (version : Version) : Node → Prop
  | scalar label s =>
    scalarValue? (Scalar.plainValue version) version label s.style s.text = some s.value
  | _ => True

def KeyValued (version : Version) : Node → Prop
  | scalar label s =>
    scalarValue? (Scalar.keyValue version) version label s.style s.text = some s.value
  | _ => True

/-- An alias, or a scalar with the value of its text. -/
inductive Leaf (version : Version) : Node → Prop
  | reference (name : String) : Leaf version (.alias name)
  | scalar {label : Label} {s : Scalar} (h : (scalar label s).Valued version) :
    Leaf version (.scalar label s)

variable {version : Version}

theorem Leaf.valued {n : Node} (h : n.Leaf version) : n.Valued version := by
  cases h with
  | reference name => trivial
  | scalar h => exact h

theorem Leaf.ne_map {n : Node} (h : n.Leaf version) (label : Label)
    (pairs : List (Node × Option Node)) : n ≠ map label pairs := by
  rintro rfl
  cases h

theorem eq_of_plainValue_eq_text {cs : List Char} {t : String}
    (h : Scalar.plainValue version cs = .text t) : t = .ofList cs := by
  unfold Scalar.plainValue at h
  split at h
  · cases h
  · split at h <;> cases h
    rfl

/-- A plain scalar merges just if it is the key of merges. -/
theorem isMergeText_iff {s : Scalar} (h : Scalar.plainValue version s.text = s.value) :
    Scalar.isMergeText s ↔ s.text = Scalar.mergeKey.toList := by
  have hkey : Scalar.plainValue version Scalar.mergeKey.toList = .text Scalar.mergeKey := by
    cases version <;> rfl
  constructor
  · intro hm
    rw [Scalar.isMergeText, ← h] at hm
    split at hm
    · next t ht =>
      have htext := eq_of_plainValue_eq_text ht
      rw [of_decide_eq_true hm] at htext
      rw [htext, String.toList_ofList]
    · cases hm
  · intro ht
    rw [Scalar.isMergeText, ← h, ht, hkey]
    rfl

/-- As a key a scalar has the value of its text. -/
theorem Valued.asKey {n : Node} (h : n.Valued version) : (n.asKey version).KeyValued version := by
  cases n with
  | scalar label s =>
    rw [Node.asKey]
    cases htag : label.tag with
    | some tag =>
      have hvalue : Scalar.taggedValue? version tag s.text = some s.value := by
        simpa [Valued, scalarValue?, htag] using h
      split <;> simpa [KeyValued, scalarValue?, htag] using hvalue
    | none =>
      have hvalue : (if s.style = .plain then Scalar.plainValue version s.text
          else .text (.ofList s.text)) = s.value := by
        simpa [Valued, scalarValue?, htag] using h
      by_cases hstyle : s.style = .plain
      · rw [if_pos hstyle] at hvalue
        simp only [isMergeText_iff hvalue, hstyle, true_and]
        split <;> simp_all [KeyValued, scalarValue?, Scalar.keyValue]
      · rw [if_neg hstyle] at hvalue
        simpa [hstyle, KeyValued, scalarValue?, htag] using hvalue
  | «alias» name | seq label items | map label pairs => trivial

theorem leaf_of_scalarOf? {label : Label} {style : Style} {text : List Char} {n : Node}
    (h : scalarOf? version label style text = some n) : n.Leaf version := by
  obtain ⟨value, hv, rfl⟩ := Option.map_eq_some_iff.1 h
  exact .scalar hv

section scalars

variable {directives : Directives} {props : Props} {n : Node} {stop : Nat}

theorem leaf_of_empty? {offset : Nat} {before : List Token}
    (h : empty? directives props offset before = some (n, stop)) : n.Leaf directives.version := by
  obtain ⟨label, -, h⟩ := Option.bind_eq_some_iff.1 h
  obtain ⟨node, hn, h⟩ := Option.bind_eq_some_iff.1 h
  cases h
  exact leaf_of_scalarOf? hn

theorem leaf_of_inline? {t : Token} {trail : List Token}
    (h : inline? directives props t trail = some (n, stop)) : n.Leaf directives.version := by
  obtain ⟨stop, -, h⟩ := Option.bind_eq_some_iff.1 h
  split at h
  · split at h
    · cases h
    · cases h
      exact .reference _
  all_goals first
    | cases h
    | obtain ⟨text, -, h⟩ := Option.bind_eq_some_iff.1 h
      obtain ⟨label, -, h⟩ := Option.bind_eq_some_iff.1 h
      obtain ⟨node, hn, h⟩ := Option.bind_eq_some_iff.1 h
      cases h
      exact leaf_of_scalarOf? hn

theorem leaf_of_block? {atRoot : Bool} {offset indent : Nat} {header : List Token}
    {text : List Char}
    (h : block? directives props atRoot offset indent header text = some (n, stop)) :
    n.Leaf directives.version := by
  obtain ⟨_, -, h⟩ := Option.bind_eq_some_iff.1 h
  obtain ⟨_, -, h⟩ := Option.bind_eq_some_iff.1 h
  obtain ⟨_, -, h⟩ := Option.bind_eq_some_iff.1 h
  obtain ⟨_, -, h⟩ := Option.bind_eq_some_iff.1 h
  obtain ⟨node, hn, h⟩ := Option.bind_eq_some_iff.1 h
  cases h
  exact leaf_of_scalarOf? hn

end scalars

/-! ### Entries -/

/-- A node is read from a layout or, where there is none, from no characters. -/
inductive Read (directives : Directives) (n : Node) : Option Layout → Prop
  | layout {atRoot : Bool} {props : Props} {l : Layout} {stop : Nat}
      (h : ofLayout? directives atRoot props l = some (n, stop)) : Read directives n (some l)
  | empty {props : Props} {offset stop : Nat} {before : List Token}
      (h : empty? directives props offset before = some (n, stop)) : Read directives n none

/-- What an entry adds to a collection: nothing, an item, a pair with a new key, or a pair that is
an item. A value may be missing. -/
inductive Reading.Adds (directives : Directives) (entry : Entry) (r r' : Reading) : Prop
  | nothing (hp : r'.pairs = r.pairs) (hi : r'.items = r.items)
  | item {n : Node} (hn : Read directives n entry.value) (hp : r'.pairs = r.pairs)
      (hi : r'.items = n :: r.items)
  | pair (key : Node) (value : Option Node) (hk : Read directives key entry.key)
      (hv : ∀ n, value = some n → Read directives n entry.value)
      (hnew : r.hasKey (key.asKey directives.version) = false)
      (hp : r'.pairs = (key.asKey directives.version, value) :: r.pairs) (hi : r'.items = r.items)
  | pairItem (key : Node) (value : Option Node) (hk : Read directives key entry.key)
      (hv : ∀ n, value = some n → Read directives n entry.value) (hp : r'.pairs = r.pairs)
      (hi : r'.items = map {} [(key.asKey directives.version, value)] :: r.items)

inductive Reading.Run (directives : Directives) : List Entry → Reading → Reading → Prop
  | nil (r : Reading) : Run directives [] r r
  | cons {entry : Entry} {entries : List Entry} {r r₁ r' : Reading} (h : r.Adds directives entry r₁)
      (hrun : Run directives entries r₁ r') : Run directives (entry :: entries) r r'

section values

variable {α : Type} {directives : Directives} {value : Option Layout} {read : Option (Node × Nat)}
  (hread : ∀ n stop, read = some (n, stop) → Read directives n value)
  {f : Option Node × Nat → Option α} {x : α}

include hread

theorem exists_read (h : (read.map fun (n, stop) => (some n, stop)).bind f = some x) :
    ∃ node stop, (∀ n, node = some n → Read directives n value) ∧ f (node, stop) = some x := by
  obtain ⟨_, hvalue, h⟩ := Option.bind_eq_some_iff.1 h
  obtain ⟨⟨n, stop⟩, hn, rfl⟩ := Option.map_eq_some_iff.1 hvalue
  refine ⟨some n, stop, ?_, h⟩
  rintro _ ⟨⟩
  exact hread n stop hn

theorem exists_read_or_none {c : Prop} [Decidable c] {last : Nat}
    (h : (if c then (read.map fun (n, stop) => (some n, stop)).bind f
      else (some (none, last)).bind f) = some x) :
    ∃ node stop, (∀ n, node = some n → Read directives n value) ∧ f (node, stop) = some x := by
  obtain h | h := of_choice h
  · exact exists_read hread h
  · exact ⟨none, last, nofun, h⟩

end values

section entries

variable {directives : Directives} {indent : Nat} {r r' : Reading} {entry : Entry}
  {rest : List Entry}

theorem exists_of_mapEntries?_cons (h : mapEntries? directives indent r (entry :: rest) = some r') :
    ∃ r₁, mapEntries? directives indent r₁ rest = some r' ∧ r.Adds directives entry r₁ := by
  obtain ⟨start, isExplicit, key, sep, value⟩ := entry
  rw [mapEntries?] at h
  obtain ⟨keyProps, -, h⟩ := Option.bind_eq_some_iff.1 h
  obtain ⟨-, h⟩ := of_guard h
  obtain ⟨-, h⟩ := of_guard h
  obtain h | h := of_choice h
  · exact ⟨_, h, .nothing rfl rfl⟩
  obtain ⟨-, h⟩ := of_guard h
  -- what comes after the key is the same whether it has characters or not
  cases key with
  | none | some _ =>
    obtain ⟨⟨keyNode, keyStop⟩, hk, h⟩ := Option.bind_eq_some_iff.1 h
    first
      | have hk : Read directives keyNode none := .empty hk
      | have hk : Read directives keyNode (some _) := .layout hk
    obtain ⟨hnew, h⟩ := of_guard h
    rw [Bool.not_eq_true] at hnew
    obtain ⟨valueProps, -, h⟩ := Option.bind_eq_some_iff.1 h
    cases hfound : valueProps.found with
    | none =>
      rw [hfound] at h
      obtain ⟨-, h⟩ := of_guard h
      exact ⟨_, h, .pair keyNode none hk nofun hnew rfl rfl⟩
    | some found =>
      rw [hfound] at h
      obtain ⟨-, h⟩ := of_guard h
      cases value with
      | none | some _ =>
        obtain ⟨⟨valueNode, stop⟩, hv, h⟩ := Option.bind_eq_some_iff.1 h
        refine ⟨_, h, .pair keyNode (some valueNode) hk ?_ hnew rfl rfl⟩
        rintro _ ⟨⟩
        first
          | exact .empty hv
          | exact .layout hv

theorem exists_of_seqEntries?_cons (h : seqEntries? directives indent r (entry :: rest) = some r') :
    ∃ r₁, seqEntries? directives indent r₁ rest = some r' ∧ r.Adds directives entry r₁ := by
  obtain ⟨start, isExplicit, key, sep, value⟩ := entry
  rw [seqEntries?] at h
  obtain ⟨props, -, h⟩ := Option.bind_eq_some_iff.1 h
  obtain h | h := of_choice h
  · obtain ⟨-, h⟩ := of_guard h
    exact ⟨_, h, .nothing rfl rfl⟩
  cases value with
  | none =>
    obtain ⟨⟨node, stop⟩, hn, h⟩ := Option.bind_eq_some_iff.1 h
    exact ⟨_, h, .item (.empty hn) rfl rfl⟩
  | some l =>
    obtain ⟨⟨node, stop⟩, hn, h⟩ := Option.bind_eq_some_iff.1 h
    exact ⟨_, h, .item (.layout hn) rfl rfl⟩

theorem exists_of_flowEntries?_cons {isMap first : Bool}
    (h : flowEntries? directives isMap indent first r (entry :: rest) = some r') :
    ∃ r₁ first', flowEntries? directives isMap indent first' r₁ rest = some r' ∧
      r.Adds directives entry r₁ := by
  obtain ⟨start, isExplicit, key, sep, value⟩ := entry
  cases key with
  | none | some _ =>
  cases value with
  | none | some _ =>
  obtain ⟨props, -, h⟩ := Option.bind_eq_some_iff.1 h
  obtain h | h := of_choice h
  · obtain ⟨-, h⟩ := of_guard h
    exact ⟨_, _, h, .nothing rfl rfl⟩
  obtain ⟨-, h⟩ := of_guard h
  obtain ⟨-, h⟩ := of_guard h
  obtain h | h := of_choice h
  · obtain ⟨⟨node, stop⟩, hn, h⟩ := Option.bind_eq_some_iff.1 h
    obtain ⟨-, h⟩ := of_guard h
    first
      | exact ⟨_, _, h, .item (.empty hn) rfl rfl⟩
      | exact ⟨_, _, h, .item (.layout hn) rfl rfl⟩
  obtain ⟨⟨keyNode, keyStop⟩, hk, h⟩ := Option.bind_eq_some_iff.1 h
  first
    | have hk : Read directives keyNode none := .empty hk
    | have hk : Read directives keyNode (some _) := .layout hk
  obtain ⟨-, h⟩ := of_guard h
  obtain ⟨valueProps, -, h⟩ := Option.bind_eq_some_iff.1 h
  obtain ⟨-, h⟩ := of_guard h
  obtain ⟨-, h⟩ := of_guard h
  -- a value without characters may also be missing
  first
    | have h := exists_read (fun _ _ hn => .layout hn) h
    | have h := exists_read_or_none (fun _ _ hn => .empty hn) h
  obtain ⟨valueNode, stop, hv, h⟩ := h
  obtain ⟨-, h⟩ := of_guard h
  obtain h | h := of_choice h
  · obtain ⟨hnew, h⟩ := of_guard h
    rw [Bool.not_eq_true] at hnew
    exact ⟨_, _, h, .pair keyNode valueNode hk hv hnew rfl rfl⟩
  · exact ⟨_, _, h, .pairItem keyNode valueNode hk hv rfl rfl⟩

/-- A collection is read entry by entry if each entry adds what it does and leaves the rest to be
read in the same way, from the state `i` in which the reading is. -/
theorem run_of_cons {ι : Type} (read : ι → Reading → List Entry → Option Reading)
    (hnil : ∀ i r, read i r [] = some r)
    (hcons : ∀ i r entry rest r', read i r (entry :: rest) = some r' →
      ∃ r₁ i', read i' r₁ rest = some r' ∧ r.Adds directives entry r₁)
    {i : ι} {entries : List Entry} (h : read i r entries = some r') :
    r.Run directives entries r' := by
  induction entries generalizing i r with
  | nil =>
    cases (hnil i r).symm.trans h
    exact .nil _
  | cons entry rest ih =>
    obtain ⟨r₁, i', h, hadds⟩ := hcons i r entry rest r' h
    exact .cons hadds (ih h)

theorem run_of_mapEntries? {entries : List Entry}
    (h : mapEntries? directives indent r entries = some r') : r.Run directives entries r' := by
  refine run_of_cons (i := ()) (fun _ => mapEntries? directives indent) ?_ ?_ h
  · exact fun _ r => mapEntries?.eq_1 directives indent r
  · intro _ r entry rest r' h
    obtain ⟨r₁, h, hadds⟩ := exists_of_mapEntries?_cons h
    exact ⟨r₁, (), h, hadds⟩

theorem run_of_seqEntries? {entries : List Entry}
    (h : seqEntries? directives indent r entries = some r') : r.Run directives entries r' := by
  refine run_of_cons (i := ()) (fun _ => seqEntries? directives indent) ?_ ?_ h
  · exact fun _ r => seqEntries?.eq_1 directives indent r
  · intro _ r entry rest r' h
    obtain ⟨r₁, h, hadds⟩ := exists_of_seqEntries?_cons h
    exact ⟨r₁, (), h, hadds⟩

theorem run_of_flowEntries? {isMap first : Bool} {entries : List Entry}
    (h : flowEntries? directives isMap indent first r entries = some r') :
    r.Run directives entries r' :=
  run_of_cons (flowEntries? directives isMap indent) (fun _ _ => rfl)
    (fun _ _ _ _ _ => exists_of_flowEntries?_cons) h

end entries

/-! ### Collections -/

theorem tagged?_map {label : Label} {pairs : List (Node × Option Node)} {n : Node}
    (h : tagged? (map label pairs) = some n) : n = map label pairs := by
  rw [tagged?] at h
  split at h
  · cases h
  · exact (Option.some.inj h).symm

/-- By its tag a sequence is one of pairs, or it stays as it is. -/
theorem tagged?_seq {label : Label} {items : List Node} {n : Node}
    (h : tagged? (seq label items) = some n) :
    n = seq label items ∨ n = seq label (items.map asPair) := by
  simp only [tagged?] at h
  split at h
  · split at h
    · exact .inr (Option.some.inj h).symm
    · cases h
  · exact .inl (Option.some.inj h).symm

/-- A map of the pairs, or a sequence of the items, that the entries of a layout add. -/
inductive Collected (r : Reading) : Node → Prop
  | map (label : Label) : Collected r (.map label r.pairs.reverse)
  | seq (label : Label) : Collected r (.seq label r.items.reverse)
  | pairs (label : Label) : Collected r (.seq label (r.items.reverse.map asPair))

theorem collected_of_tagged?_map {r : Reading} {label : Label} {n : Node}
    (h : tagged? (map label r.pairs.reverse) = some n) : Collected r n := by
  rw [tagged?_map h]
  exact .map label

theorem collected_of_tagged?_seq {r : Reading} {label : Label} {n : Node}
    (h : tagged? (seq label r.items.reverse) = some n) : Collected r n := by
  rcases tagged?_seq h with rfl | rfl
  · exact .seq label
  · exact .pairs label

theorem ofLayout?_cases {directives : Directives} {atRoot : Bool} {props : Props} {l : Layout}
    {n : Node} {stop : Nat} (h : ofLayout? directives atRoot props l = some (n, stop)) :
    n.Leaf directives.version ∨
      ∃ offset r, Reading.Run directives l.entries { offset } r ∧ Collected r n := by
  cases l with
  | scalar t trail => exact .inl (leaf_of_inline? h)
  | block offset indent header text => exact .inl (leaf_of_block? h)
  | blockMap offset indent entries =>
    simp only [ofLayout?, Option.bind_eq_bind, Option.bind_eq_some_iff] at h
    obtain ⟨r, hr, label, -, h⟩ := h
    obtain h | h := of_choice h
    · obtain ⟨node, hn, h⟩ := Option.bind_eq_some_iff.1 h
      cases h
      exact .inr ⟨_, r, run_of_mapEntries? hr, collected_of_tagged?_map hn⟩
    · cases h
  | blockSeq offset indent entries =>
    rw [ofLayout?] at h
    obtain ⟨-, h⟩ := of_guard h
    obtain ⟨r, hr, h⟩ := Option.bind_eq_some_iff.1 h
    obtain ⟨label, -, h⟩ := Option.bind_eq_some_iff.1 h
    obtain ⟨node, hn, h⟩ := Option.bind_eq_some_iff.1 h
    cases h
    exact .inr ⟨_, r, run_of_seqEntries? hr, collected_of_tagged?_seq hn⟩
  | flow opening indent entries closing =>
    simp only [ofLayout?, Option.bind_eq_bind, Option.bind_eq_some_iff] at h
    obtain ⟨r, hr, last, -, label, -, node, hn, h⟩ := h
    cases h
    refine .inr ⟨_, r, run_of_flowEntries? hr, ?_⟩
    split at hn
    · exact collected_of_tagged?_map hn
    · exact collected_of_tagged?_seq hn

theorem Read.valued {directives : Directives} {n : Node} {l : Option Layout}
    (h : Read directives n l) : n.Valued directives.version := by
  cases h with
  | empty h => exact (leaf_of_empty? h).valued
  | layout h =>
    rcases ofLayout?_cases h with hleaf | ⟨_, r, -, hc⟩
    · exact hleaf.valued
    · cases hc with
      | map label | seq label | pairs label => trivial

end Node

/-! ### Documents -/

namespace Document

def Reading.Rooted (r : Reading) : Prop :=
  ∀ n, r.root = some n → ∃ directives : Directives, directives.version = r.version ∧
    ∃ l, Node.Read directives n l

theorem read_of_root? {directives : Directives} {offset : Nat} {start trail : List Token}
    {value : Option Layout} {n : Node} {props : Props}
    (h : root? directives offset start value trail = some (n, props)) :
    Node.Read directives n value := by
  obtain ⟨_, -, h⟩ := Option.bind_eq_some_iff.1 h
  obtain ⟨-, h⟩ := of_guard h
  cases value with
  | none | some v =>
    obtain ⟨⟨node, stop⟩, hn, h⟩ := Option.bind_eq_some_iff.1 h
    obtain ⟨_, -, h⟩ := Option.bind_eq_some_iff.1 h
    cases h
    first
      | exact .empty hn
      | exact .layout hn

theorem Reading.Rooted.add? {r r' : Reading} (hr : r.Rooted) {part : Part}
    (h : r.add? part = some r') : r'.Rooted := by
  cases part with
  | directive chars =>
    obtain ⟨_, -, rfl⟩ := Option.map_eq_some_iff.1 h
    exact hr
  | document offset start value trail =>
    rw [Reading.add?] at h
    obtain ⟨-, h⟩ := of_guard h
    obtain ⟨⟨node, props⟩, hn, h⟩ := Option.bind_eq_some_iff.1 h
    obtain ⟨-, h⟩ := of_guard h
    cases h
    rintro _ ⟨⟩
    exact ⟨_, rfl, _, read_of_root? hn⟩
  | documentEnd trail =>
    obtain h | h := of_choice h
    · cases h
    · obtain ⟨_, -, rfl⟩ := Option.map_eq_some_iff.1 h
      exact hr

theorem Reading.Rooted.foldlM {parts : List Part} {r r' : Reading} (hr : r.Rooted)
    (h : parts.foldlM Reading.add? r = some r') : r'.Rooted := by
  induction parts generalizing r with
  | nil =>
    cases h
    exact hr
  | cons part parts ih =>
    rw [List.foldlM_cons] at h
    obtain ⟨r₁, h₁, h⟩ := Option.bind_eq_some_iff.1 h
    exact ih (hr.add? h₁) h

end Document

theorem Document.rooted_of_read? {text : String} {r : Document.Reading}
    (h : Document.read? text = some r) : r.Rooted := by
  obtain ⟨lexemes, -, h⟩ := Option.bind_eq_some_iff.1 h
  obtain ⟨parts, -, h⟩ := Option.bind_eq_some_iff.1 h
  obtain ⟨r', hr, h⟩ := Option.bind_eq_some_iff.1 h
  obtain h | h := of_choice h
  · cases h
  · cases h
    exact Document.Reading.Rooted.foldlM (by nofun) hr

/-- The root of a text is a node that is read in the version of the text. -/
theorem read_of_document? {text : String} {n : Node} (h : document? text = some (some n)) :
    ∃ directives : Directives, version? text = some directives.version ∧
      ∃ l, Node.Read directives n l := by
  obtain ⟨r, hr, hroot⟩ := Option.map_eq_some_iff.1 h
  obtain ⟨directives, hversion, l, hread⟩ := Document.rooted_of_read? hr n hroot
  exact ⟨directives, by rw [version?, hr, hversion]; rfl, l, hread⟩

end Yaml

end Seedbed
