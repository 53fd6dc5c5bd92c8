import Mathlib.Data.List.Nodup
import Seedbed.Proofs.Seeder.Label

/-! The order of a file. Nothing between the text of a file and the inserts sorts the labels, also
where they look like numbers: as long as they differ, the record in each place is that of the pair
in this place, and its identifier is the one that the call answers with there. -/

namespace Seedbed

namespace Yaml

/-- Nothing stands under a key, or no more than an anchor. -/
def Node.IsEmpty (value : Option Node) : Prop :=
  ∀ n, value = some n → ∃ anchor s, n = scalar { anchor } s ∧ s.style = .plain ∧ s.text = []

theorem Node.value_of_isEmpty {version : Version} {n : Node} (h : IsEmpty (some n))
    (hv : n.Valued version) :
    ∃ label s, n = scalar label s ∧ s.value = .null := by
  obtain ⟨anchor, s, rfl, hs, ht⟩ := h n rfl
  refine ⟨_, s, rfl, ?_⟩
  simp only [Valued, scalarValue?, hs, ht] at hv
  exact (Option.some.inj hv).symm

/-- The records are those of the pairs, each in the place of its pair. The pairs are given with the
aliases in them linked, too, and with the nodes that these can stand for. -/
structure InOrder (version : Version) (nodes : Linked.Nodes) (pairs : List (Node × Option Node))
    (linked : List (Linked × Option Linked)) (m : Records) : Prop where
  size : m.size = pairs.length
  record : ∀ (i : Nat) key value, pairs[i]? = some (key, value) → ∃ q label v,
    linked[i]? = some q ∧ m.entries[i]? = some (label, v) ∧ key.recordLabel? = some label ∧
    Linked.under version nodes q.2 = .ok v ∧
    (∀ valueLabel s, value = some (.scalar valueLabel s) → v = s.value) ∧
    (Node.IsEmpty value → v = .null)

section pairs

variable {version : Version} {label : Label} {pairs : List (Node × Option Node)}
  {number : Option Nat} {linked : List (Linked × Option Linked)} {entries : List (String × Value)}

theorem Entered.exists_place (h : Entered version label pairs entries)
    (hl : Linked.ofRoot (.map label pairs) = .map number label linked) {i : Nat}
    {p : Node × Option Node} (hp : pairs[i]? = some p) :
    ∃ q e, linked[i]? = some q ∧ entries[i]? = some e ∧ p.1.recordLabel? = some e.1 ∧
      q.2.map Linked.scalar? = p.2.map Node.scalar? ∧
      Linked.under version (Linked.map number label linked).anchored q.2 = .ok e.2 := by
  obtain ⟨number', linked', hl', hread⟩ := h.read
  cases hl.symm.trans hl'
  obtain ⟨number', a, hm⟩ := Linked.ofRoot_map label pairs
  cases hl.symm.trans hm
  have hvalue := congrArg (·[i]?) (Linked.valueScalars_ofPairs pairs a)
  have hlabel := congrArg (·[i]?) h.labels
  simp only [List.getElem?_map, hp, Option.map_some] at hvalue hlabel
  obtain ⟨q, hq, hscalar⟩ := Option.map_eq_some_iff.1 hvalue
  obtain ⟨e, he, hname⟩ := Option.map_eq_some_iff.1 hlabel.symm
  refine ⟨q, e, hq, he, hname.symm, hscalar, under_of_record ?_⟩
  obtain ⟨hi, rfl⟩ := List.getElem?_eq_some_iff.1 hq
  obtain ⟨hi', rfl⟩ := List.getElem?_eq_some_iff.1 he
  exact (List.forall₂_iff_get.1 (forall₂_of_mapM hread)).2 i hi hi'

theorem Entered.inOrder (h : Entered version label pairs entries) (hd : Node.Distinct version pairs)
    (hl : Linked.ofRoot (.map label pairs) = .map number label linked)
    (hn : (pairs.map fun p => p.1.recordLabel?).Nodup) :
    InOrder version (Linked.map number label linked).anchored pairs linked (.ofList entries) := by
  have hkeys : (entries.map Prod.fst).Nodup := by
    rw [h.labels] at hn
    refine List.Nodup.of_map some ?_
    rwa [List.map_map]
  refine ⟨h.size_iff.2 hkeys, fun i key value hp => ?_⟩
  obtain ⟨q, ⟨name, v⟩, hq, he, hname, hscalar, hunder⟩ := h.exists_place hl hp
  have hv : ∀ valueLabel s, value = some (.scalar valueLabel s) → v = s.value := by
    rintro valueLabel s rfl
    obtain ⟨node, hnode, hs⟩ := Option.map_eq_some_iff.1 hscalar
    rw [hnode, Linked.under, Linked.value_of_scalar? hs] at hunder
    cases hunder
    rfl
  refine ⟨q, name, v, hq, ?_, hname, hunder, hv, fun hempty => ?_⟩
  · rw [Keyed.entries_ofList hkeys, he]
  · cases value with
    | none =>
      rw [Option.map_eq_none_iff.1 hscalar] at hunder
      cases hunder
      rfl
    | some n =>
      obtain ⟨valueLabel, s, rfl, hs⟩ :=
        Node.value_of_isEmpty hempty (hd.filled _ (List.mem_of_getElem? hp) n rfl)
      rw [hv valueLabel s rfl, hs]

end pairs

end Yaml

namespace Call

/-- The record that an insert function was called with and the identifier that it answered with. -/
def insert? : Call → Option (Value × Identifier)
  | insert record (.ok id) => some (record, id)
  | _ => none

end Call

namespace Seeder

variable {σ : Type}

theorem insertCalls_insert? (entries : List (String × Value)) (ids : List Identifier) :
    (insertCalls entries ids).filterMap Call.insert? = (entries.map Prod.snd).zip ids := by
  induction entries generalizing ids with
  | nil => simp [insertCalls]
  | cons entry entries ih =>
    cases ids with
    | nil => rfl
    | cons id ids => exact congrArg (_ :: ·) (ih ids)

structure InsertsInOrder (m : Records) (r : Except Thrown (List Identifier)) (s : Seeder)
    (calls : List Call) : Prop where
  called : calls.filterMap Call.record? <+: m.entries.map Prod.snd
  /-- The identifiers it answers with are those of the records, in the same places. -/
  answered : ∀ ids, r = .ok ids → ids.length = m.size ∧
    calls.filterMap Call.insert? = (m.entries.map Prod.snd).zip ids ∧
    ∀ (i : Nat) label record, m.entries[i]? = some (label, record) →
      ∃ id, ids[i]? = some id ∧ s.lookup label = some id.toText
  /-- Only an insert that throws ends it early, which is then its last one. -/
  stopped : ∀ e, r = .error e → ∃ before record thrown,
    calls = before ++ [.insert record (.error thrown)]

theorem lookup_of_getElem? {filename : String} {s : Seeder} {m : Records} {ids : List Identifier}
    (h : ids.length = m.size) {i : Nat} {label : String} {record : Value}
    (hi : m.entries[i]? = some (label, record)) :
    ∃ id, ids[i]? = some id ∧
      (s.registerAll filename (m.keys.zip ids)).lookup label = some id.toText := by
  obtain ⟨hlt, -⟩ := List.getElem?_eq_some_iff.1 hi
  have hid := List.getElem?_eq_getElem (Nat.lt_of_lt_of_eq hlt h.symm)
  refine ⟨_, hid, ?_⟩
  rw [lookup, (registerAll_kept filename s _).1, Registry.lookup_registered,
    Keyed.lookup_zip hi hid]
  rfl

/-- The inserts of a call that populates a file are those of the records that its decoder answers
with. -/
theorem exists_insertsInOrder (source : Source σ) {q : Request σ} {filename : String}
    {decoder : Decoder σ} (hq : q.file? = some (filename, decoder)) (s : Seeder) (w : σ) :
    ∃ r s' calls w',
      Ends (q.perform source) (q.noting.perform source.noting) s w [] r s' calls w' ∧
      ∀ text, calls.filterMap Call.text? = [text] → ∀ m, (∀ w, decoder text w = (.ok m, w)) →
        InsertsInOrder m r s' calls := by
  obtain ⟨insert, hp, hn⟩ := Request.exists_inserter hq source
  rw [hp, hn]
  obtain ⟨r, s', calls, w', hends, he⟩ := exists_ending source filename decoder insert s [] w
  refine ⟨r, s', calls, w', hends, fun text ht m hd => ?_⟩
  -- the decoder was called with this text only, so the records are those it answered with
  have hrecords : ∀ {records w₁ new inserts},
      LoadYields source filename decoder (some s.baseDir) s.names w records w₁ →
      LoadCalls source filename decoder (some s.baseDir) s.names w new →
      inserts.filterMap Call.text? = [] → (new ++ inserts).filterMap Call.text? = [text] →
      records = m := by
    intro records w₁ new inserts hyields hasked hinserts ht
    rw [List.filterMap_append, hinserts, List.append_nil] at ht
    obtain ⟨w₂, hy⟩ := hasked.exists_yields_of_text? ht hd
    cases hyields.run.symm.trans hy.run
    rfl
  cases he with
  | unloaded fails load asked =>
    obtain ⟨w₂, hy⟩ := asked.exists_yields_of_text? ht hd
    cases load.symm.trans hy.run
  | finished yields asked each =>
    cases hrecords yields asked (insertCalls_text? _ _) ht
    constructor
    · rw [List.filterMap_append, asked.record?, insertCalls_record? each.length]
      exact List.prefix_refl _
    · rintro _ ⟨⟩
      refine ⟨each.length, ?_, fun i label record hi => lookup_of_getElem? each.length hi⟩
      rw [List.filterMap_append, insertCalls_insert?,
        asked.filterMap_eq_nil (fun _ _ _ => rfl) (fun _ _ => rfl) fun _ _ => rfl]
      rfl
    · nofun
  | stopped yields asked fails =>
    obtain ⟨⟨rest, hsplit⟩, w₂, hdone, -⟩ := fails.split
    cases hrecords yields asked (by rw [List.filterMap_append, insertCalls_text?]; rfl) ht
    refine ⟨?_, nofun, fun _ _ => ⟨_, _, _, (List.append_assoc _ _ _).symm⟩⟩
    rw [List.filterMap_append, List.filterMap_append, asked.record?,
      insertCalls_record? hdone.length, hsplit, List.map_append]
    exact ⟨rest.map Prod.snd, by simp [Call.record?]⟩

/-- A text that is accepted has the records of its pairs in the order of the pairs if the labels of
these differ, with null where nothing stands under a key. A call that populates such a file inserts
the records in this order, and the identifier in each place of its answer is that of the record in
the same place. -/
theorem records_in_order (source : Source σ) (text : String) :
    (∃ e, Yaml.records text = .error e) ∨ ∃ m, Yaml.records text = .ok m ∧
      (Yaml.document? text = some none ∧ m.entries = [] ∨ ∃ version label pairs number linked,
        Yaml.document? text = some (some (.map label pairs)) ∧ Yaml.version? text = some version ∧
        Yaml.Linked.ofRoot (.map label pairs) = .map number label linked ∧
        ((pairs.map fun p => p.1.recordLabel?).Nodup →
          Yaml.InOrder version (Yaml.Linked.map number label linked).anchored pairs linked m)) ∧
      ∀ q filename, Request.file? q = some (filename, Yaml.decoder) → ∀ s w, ∃ r s' calls w',
        Ends (q.perform source) (q.noting.perform source.noting) s w [] r s' calls w' ∧
        (calls.filterMap Call.text? = [text] → InsertsInOrder m r s' calls) := by
  cases hr : Yaml.records text with
  | error e => exact .inl ⟨e, rfl⟩
  | ok m =>
    refine .inr ⟨m, rfl, ?_, fun q filename hq s w => ?_⟩
    · rcases Yaml.exists_entered hr with ⟨hd, rfl⟩ | ⟨version, label, pairs, entries, hd, hv, rfl, he⟩
      · exact .inl ⟨hd, rfl⟩
      · obtain ⟨number, linked, hl, -⟩ := he.read
        obtain ⟨version', hv', hdistinct⟩ := Yaml.distinct_of_document? hd
        cases hv'.symm.trans hv
        exact .inr ⟨version, label, pairs, number, linked, hd, hv, hl, he.inOrder hdistinct hl⟩
    · obtain ⟨r, s', calls, w', hends, hinserts⟩ := exists_insertsInOrder source hq s w
      refine ⟨r, s', calls, w', hends, fun ht => ?_⟩
      exact hinserts text ht m fun w => Yaml.decoder_eq_ok_iff.2 ⟨hr, rfl⟩

/-- Labels that look like numbers stay where they are. -/
example : (Yaml.records "1202:\n  n: 1\nfirst:\n1200: 2\n").toOption.map Keyed.keys =
    some ["1202", "first", "1200"] := by
  decide +kernel

end Seeder

end Seedbed
