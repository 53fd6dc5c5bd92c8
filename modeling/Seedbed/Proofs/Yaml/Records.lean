import Mathlib.Data.List.Forall2
import Seedbed.Proofs.Keyed
import Seedbed.Proofs.Value.Json
import Seedbed.Proofs.Yaml.Keys
import Seedbed.Yaml.Records

/-! The records of a YAML text and the pairs of the map at its root. Each pair has an entry, under
the text of its key. Keys with different values can have one text, and then the entries of both
stand under one label: the later record, in the place of the earlier one. -/

namespace Seedbed

theorem forall₂_of_mapM {ε α β : Type} {f : α → Except ε β} {as : List α} {bs : List β}
    (h : as.mapM f = .ok bs) : List.Forall₂ (fun a b => f a = .ok b) as bs := by
  induction as generalizing bs with
  | nil =>
    cases h
    exact .nil
  | cons a as ih =>
    rw [List.mapM_cons] at h
    obtain ⟨b, ha, h⟩ := bind_eq_ok.1 h
    obtain ⟨rest, hrest, h⟩ := bind_eq_ok.1 h
    cases h
    exact .cons ha (ih hrest)

namespace Yaml

/-! ### Linked keys -/

namespace Node

def scalar? : Node → Option Scalar
  | scalar _ s => some s
  | _ => none

/-- The label of a key that is a scalar: the text of its value. -/
def recordLabel? (n : Node) : Option String := n.scalar?.map fun s => s.value.toText

/-- A scalar that is a text. -/
def IsText (n : Node) : Prop := ∃ label s t, n = scalar label s ∧ s.value = .text t

theorem recordLabel?_ne {a b : Node} (ha : a.IsText) (hb : b.IsText) (h : a.sameKey b = false) :
    a.recordLabel? ≠ b.recordLabel? := by
  obtain ⟨label, s, t, rfl, hs⟩ := ha
  obtain ⟨label', s', t', rfl, hs'⟩ := hb
  rw [sameKey, hs, hs', sameValue, beq_eq_false_iff_ne] at h
  show (some s.value.toText) ≠ some s'.value.toText
  rw [hs, hs', Value.toText, Value.toText]
  exact fun heq => h (Option.some.inj heq)

end Node

namespace Linked

def scalar? : Linked → Option Scalar
  | scalar _ _ s => some s
  | _ => none

theorem scalar?_ofNode (n : Node) (a : Anchors) : (ofNode n a).1.scalar? = n.scalar? := by
  cases n with
  | scalar label s | seq label items | map label pairs => rfl
  | «alias» name =>
    show (resolve name a).scalar? = none
    unfold resolve
    split <;> rfl

theorem scalars_ofPairs (pairs : List (Node × Option Node)) (a : Anchors) :
    (ofPairs pairs a).1.map (fun p => p.1.scalar?) = pairs.map fun p => p.1.scalar? := by
  induction pairs generalizing a with
  | nil => rfl
  | cons p pairs ih =>
    obtain ⟨key, value⟩ := p
    cases value with
    | none =>
      rw [List.map_cons, ← scalar?_ofNode key a, ← ih (ofNode key a).2]
      rfl
    | some v =>
      rw [List.map_cons, ← scalar?_ofNode key a, ← ih (ofNode v (ofNode key a).2).2]
      rfl

theorem valueScalars_ofPairs (pairs : List (Node × Option Node)) (a : Anchors) :
    (ofPairs pairs a).1.map (fun p => p.2.map scalar?) =
      pairs.map fun p => p.2.map Node.scalar? := by
  induction pairs generalizing a with
  | nil => rfl
  | cons p pairs ih =>
    obtain ⟨key, value⟩ := p
    cases value with
    | none =>
      rw [List.map_cons, ← ih (ofNode key a).2]
      rfl
    | some v =>
      rw [List.map_cons, ← ih (ofNode v (ofNode key a).2).2, Option.map_some,
        ← scalar?_ofNode v (ofNode key a).2]
      rfl

def under (version : Version) (nodes : Nodes) : Option Linked → Except Failure Value
  | none => .ok .null
  | some node => node.value version nodes

/-- The value of a scalar is the one that it was read with. -/
theorem value_of_scalar? {version : Version} {nodes : Nodes} {node : Linked} {s : Scalar}
    (h : node.scalar? = some s) : node.value version nodes = .ok s.value := by
  cases node with
  | scalar number label s' =>
    cases h
    rw [value]
    simp only [Evaluation.ofLinked]
    cases number with
    | none | some n => cases s.value <;> rfl
  | seq _ _ _ | map _ _ _ | «alias» _ _ | dangling _ => cases h

theorem ofRoot_map (label : Label) (pairs : List (Node × Option Node)) :
    ∃ number a, ofRoot (.map label pairs) = .map number label (ofPairs pairs a).1 :=
  ⟨_, _, rfl⟩

theorem exists_of_ofRoot {root : Node} {number : Option Nat} {label : Label}
    {linked : List (Linked × Option Linked)} (h : ofRoot root = .map number label linked) :
    ∃ pairs, root = .map label pairs := by
  cases root with
  | scalar _ _ | «alias» _ | seq _ _ => cases h
  | map label' pairs =>
    cases h
    exact ⟨pairs, rfl⟩

end Linked

/-! ### Entries -/

section record

variable {version : Version} {nodes : Linked.Nodes}

/-- A pair becomes an entry under the label of its key. -/
theorem label_of_record {pair : Linked × Option Linked} {entry : String × Value}
    (h : record version nodes pair = .ok entry) :
    pair.1.scalar?.map (fun s => s.value.toText) = some entry.1 := by
  obtain ⟨key, value⟩ := pair
  cases key with
  | scalar number label s =>
    cases value with
    | none =>
      cases h
      rfl
    | some node =>
      simp only [record] at h
      split at h
      · cases h
        rfl
      · cases h
  | seq _ _ _ | map _ _ _ | «alias» _ _ | dangling _ => cases h

theorem under_of_record {pair : Linked × Option Linked} {entry : String × Value}
    (h : record version nodes pair = .ok entry) :
    Linked.under version nodes pair.2 = .ok entry.2 := by
  obtain ⟨key, value⟩ := pair
  cases key with
  | scalar number label s =>
    cases value with
    | none =>
      cases h
      rfl
    | some node =>
      simp only [record] at h
      split at h
      · cases h
        assumption
      · cases h
  | seq _ _ _ | map _ _ _ | «alias» _ _ | dangling _ => cases h

theorem labels_of_mapM_record {pairs : List (Linked × Option Linked)}
    {entries : List (String × Value)} (h : pairs.mapM (record version nodes) = .ok entries) :
    pairs.map (fun p => p.1.scalar?.map fun s => s.value.toText) = entries.map (some ·.1) := by
  have hall := forall₂_of_mapM h
  clear h
  induction hall with
  | nil => rfl
  | cons hp _ ih => rw [List.map_cons, List.map_cons, label_of_record hp, ih]

end record

/-! ### Texts -/

/-- The entries of the pairs at the root of a text: one for each pair, under its label. The records
are the entries written one after the other, so of entries with one label the last is kept. -/
structure Entered (version : Version) (label : Label) (pairs : List (Node × Option Node))
    (entries : List (String × Value)) : Prop where
  read : ∃ number linked, Linked.ofRoot (.map label pairs) = .map number label linked ∧
    linked.mapM (record version (Linked.map number label linked).anchored) = .ok entries
  labels : pairs.map (fun p => p.1.recordLabel?) = entries.map (some ·.1)
  differ : pairs.Pairwise fun p q => p.1.sameKey q.1 = false

namespace Entered

variable {version : Version} {label : Label} {pairs : List (Node × Option Node)}
  {entries : List (String × Value)}

theorem length_eq (h : Entered version label pairs entries) : entries.length = pairs.length := by
  have hl := congrArg List.length h.labels
  rw [List.length_map, List.length_map] at hl
  exact hl.symm

/-- No record is lost just if the labels differ. -/
theorem size_iff (h : Entered version label pairs entries) :
    (Keyed.ofList entries).size = pairs.length ↔ (entries.map Prod.fst).Nodup := by
  rw [← h.length_eq, Keyed.size_ofList]

/-- Labels differ if all keys are texts. -/
theorem nodup_of_texts (h : Entered version label pairs entries) (ht : ∀ p ∈ pairs, p.1.IsText) :
    (entries.map Prod.fst).Nodup := by
  have hl : (entries.map fun e => some e.1).Pairwise (· ≠ ·) := by
    rw [← h.labels, List.pairwise_map]
    exact h.differ.imp_of_mem fun hp hq hne => Node.recordLabel?_ne (ht _ hp) (ht _ hq) hne
  rw [List.Nodup, List.pairwise_map]
  exact (List.pairwise_map.1 hl).imp fun hne heq => hne (congrArg some heq)

end Entered

theorem decoder_eq_ok_iff {σ : Type} {text : String} {m : Records} {w w' : σ} :
    decoder text w = (.ok m, w') ↔ records text = .ok m ∧ w = w' := by
  have hrun : (decoder text : Action σ Records) w = (records text, w) := by
    rw [decoder]
    cases records text with
    | ok m => rfl
    | error e => rfl
  rw [hrun, Prod.mk.injEq]

/-- The records of a text are the entries of the pairs at its root. -/
theorem exists_entered {text : String} {m : Records} (h : records text = .ok m) :
    document? text = some none ∧ m = ∅ ∨ ∃ version label pairs entries,
      document? text = some (some (.map label pairs)) ∧ version? text = some version ∧
      m = .ofList entries ∧ Entered version label pairs entries := by
  unfold records at h
  split at h
  · cases h
  · next hread =>
    cases h
    exact .inl ⟨congrArg (Option.map Document.Reading.root) hread, rfl⟩
  · next root version hread =>
    have hroot : document? text = some (some root) :=
      congrArg (Option.map Document.Reading.root) hread
    have hversion : version? text = some version :=
      congrArg (Option.map Document.Reading.version) hread
    unfold rootRecords at h
    split at h
    · next number label linked hl =>
      obtain ⟨pairs, rfl⟩ := Linked.exists_of_ofRoot hl
      obtain ⟨number', a, hm⟩ := Linked.ofRoot_map label pairs
      rw [hl] at hm
      cases hm
      obtain ⟨entries, hr, rfl⟩ := map_eq_ok.1 h
      rw [hl] at hr
      obtain ⟨_, -, hdistinct⟩ := distinct_of_document? hroot
      refine .inr ⟨version, label, pairs, entries, hroot, hversion, rfl, ⟨_, _, hl, hr⟩, ?_,
        hdistinct.differ⟩
      rw [← labels_of_mapM_record hr]
      have hs := congrArg (List.map (Option.map fun s => s.value.toText))
        (Linked.scalars_ofPairs pairs a)
      rw [List.map_map, List.map_map] at hs
      exact hs.symm
    · cases h

/-- Every text that is accepted has one entry for each pair at its root, under the text of the
key's value. The records are all of them just if the labels differ, as they do where the keys are
texts. Else the last of the records under a label is kept. -/
theorem records_entered (text : String) :
    (∃ e, records text = .error e) ∨ (document? text = some none ∧ records text = .ok ∅) ∨
      ∃ version label pairs entries,
        document? text = some (some (.map label pairs)) ∧ version? text = some version ∧
        records text = .ok (.ofList entries) ∧ Entered version label pairs entries ∧
        (∀ l, (Keyed.ofList entries).get? l = entries.reverse.lookup l) ∧
        ((Keyed.ofList entries).size = pairs.length ↔ (entries.map Prod.fst).Nodup) ∧
        ((∀ p ∈ pairs, p.1.IsText) → (Keyed.ofList entries).entries = entries) := by
  cases hr : records text with
  | error e => exact .inl ⟨e, rfl⟩
  | ok m =>
    refine .inr ?_
    rcases exists_entered hr with ⟨hd, rfl⟩ | ⟨version, label, pairs, entries, hd, hv, rfl, he⟩
    · exact .inl ⟨hd, rfl⟩
    · refine .inr ⟨version, label, pairs, entries, hd, hv, rfl, he, Keyed.get?_ofList entries,
        he.size_iff, fun ht => Keyed.entries_ofList (he.nodup_of_texts ht)⟩

def counts? : Option (Option Node) → Except Thrown Records → Option (Nat × Nat)
  | some (some (.map _ pairs)), .ok m => some (pairs.length, m.size)
  | _, _ => none

theorem exists_of_counts? {root : Option (Option Node)} {r : Except Thrown Records} {i j : Nat}
    (h : counts? root r = some (i, j)) : ∃ label pairs m,
      root = some (some (.map label pairs)) ∧ r = .ok m ∧ pairs.length = i ∧ m.size = j := by
  unfold counts? at h
  split at h
  · cases h
    exact ⟨_, _, _, rfl, rfl, rfl, rfl⟩
  · cases h

/-- The number `1` and the text `'1'` are keys that differ, and their labels do not. -/
theorem exists_record_lost : ¬ ∀ text label pairs m,
    document? text = some (some (.map label pairs)) → records text = .ok m →
    m.size = pairs.length := by
  intro h
  have hc : counts? (document? "1: a\n'1': b\n") (records "1: a\n'1': b\n") = some (2, 1) := by
    decide +kernel
  obtain ⟨label, pairs, m, hd, hr, hp, hm⟩ := exists_of_counts? hc
  have hs := h _ label pairs m hd hr
  omega

end Yaml

end Seedbed
