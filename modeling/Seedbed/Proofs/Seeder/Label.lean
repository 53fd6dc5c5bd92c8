import Seedbed.Proofs.Seeder.Session
import Seedbed.Proofs.Yaml.Plain
import Seedbed.Proofs.Yaml.Records

/-! References to the keys of a file. A record is registered under the text of its key's value, so a
reference finds it by the characters of the key where these are that text. -/

namespace Seedbed

theorem lookup_reverse_of_last {α : Type} {entries : List (String × α)} {i : Nat} {key : String}
    {value : α} (h : entries[i]? = some (key, value))
    (hlast : ∀ j e, entries[j]? = some e → i < j → e.1 ≠ key) :
    entries.reverse.lookup key = some value := by
  induction entries generalizing i with
  | nil => cases h
  | cons e rest ih =>
    rw [List.reverse_cons, List.lookup_append]
    cases i with
    | zero =>
      have hrest : rest.reverse.lookup key = none := by
        rw [List.lookup_eq_none_iff]
        intro p hp
        obtain ⟨j, hj⟩ := List.mem_iff_getElem?.1 (List.mem_reverse.1 hp)
        exact bne_iff_ne.2 (hlast (j + 1) p hj (Nat.succ_pos j)).symm
      cases h
      rw [hrest, Option.none_or, List.lookup_cons, beq_self_eq_true]
    | succ i =>
      rw [ih h fun j e hj hlt => hlast (j + 1) e hj (Nat.succ_lt_succ hlt)]
      rfl

theorem Keyed.lookup_zip {α β : Type} {m : Keyed α} {n : Nat} {key : String} {value : α}
    {answer : β} {answers : List β} (hn : m.entries[n]? = some (key, value))
    (ha : answers[n]? = some answer) :
    (m.keys.zip answers).reverse.lookup key = some answer := by
  have hkey : m.keys[n]? = some key := by rw [Keyed.keys, List.getElem?_map, hn]; rfl
  refine lookup_reverse_of_last (List.getElem?_zip_eq_some.2 ⟨hkey, ha⟩) fun j e hj hlt heq => ?_
  have hj' : m.keys[j]? = some key := heq ▸ (List.getElem?_zip_eq_some.1 hj).1
  obtain ⟨hj'', -⟩ := List.getElem?_eq_some_iff.1 hj'
  exact Nat.ne_of_gt hlt ((List.getElem?_inj hj'' m.nodup).1 (hj'.trans hkey.symm))

namespace Yaml

variable {version : Version}

/-- A plain key without a tag is its own label unless it respells null, a boolean or a number, is an
instant, or merges other maps. -/
theorem recordLabel?_of_plain {label : Label} {s : Scalar}
    (h : (Node.scalar label s).KeyValued version) (hs : s.style = .plain) (ht : label.tag = none) :
    (Node.scalar label s).recordLabel? = some (.ofList s.text) ↔
      s.text ∉ Scalar.respelled version ∧
        (∀ x, Scalar.number? version s.text = some x → x.text = .ofList s.text) ∧
        Scalar.instant? version s.text = none ∧
        (version = .v1_1 → s.text ≠ Scalar.mergeKey.toList) := by
  have hvalue : Scalar.keyValue version s.text = s.value := by
    simp only [Node.KeyValued, Node.scalarValue?, ht, hs, if_true] at h
    exact Option.some.inj h
  have hlabel : (Node.scalar label s).recordLabel? = some (.ofList s.text) ↔
      (Scalar.keyValue version s.text).toText = .ofList s.text := by
    rw [hvalue]
    exact Option.some_inj
  rw [hlabel, Scalar.keyValue]
  split
  · next hmerge =>
    refine iff_of_false ?_ fun hplain => hplain.2.2.2 hmerge.1 hmerge.2
    rw [hmerge.2]
    decide
  · next hmerge =>
    rw [Scalar.toText_plainValue_iff]
    rw [not_and] at hmerge
    constructor
    · intro h
      exact ⟨h.1, h.2.1, h.2.2, hmerge⟩
    · intro h
      exact ⟨h.1, h.2.1, h.2.2.1⟩

/-- The record of a key stands under its label if no later key has it. -/
theorem Entered.exists_getElem? {label : Label} {pairs : List (Node × Option Node)}
    {entries : List (String × Value)} (h : Entered version label pairs entries) {i : Nat}
    {p : Node × Option Node} {key : String} (hp : pairs[i]? = some p)
    (hkey : p.1.recordLabel? = some key)
    (hlast : ∀ j p, pairs[j]? = some p → i < j → p.1.recordLabel? ≠ some key) :
    ∃ (value : Value) (n : Nat), entries[i]? = some (key, value) ∧
      (Keyed.ofList entries).entries[n]? = some (key, value) := by
  have hlabel (j : Nat) :
      (pairs[j]?).map (fun p => p.1.recordLabel?) = (entries[j]?).map (some ·.1) := by
    rw [← List.getElem?_map, ← List.getElem?_map, h.labels]
  have hi := hlabel i
  rw [hp, Option.map_some, hkey] at hi
  obtain ⟨⟨key', value⟩, he, heq⟩ := Option.map_eq_some_iff.1 hi.symm
  cases heq
  have hfound : (Keyed.ofList entries).get? key' = some value := by
    rw [Keyed.get?_ofList]
    refine lookup_reverse_of_last he fun j e hj hlt heq => ?_
    have hj' := hlabel j
    rw [hj, Option.map_some, heq] at hj'
    obtain ⟨p', hp', hl⟩ := Option.map_eq_some_iff.1 hj'
    exact hlast j p' hp' hlt hl
  obtain ⟨before, after, hsplit, -⟩ := List.lookup_eq_some_iff.1 hfound
  refine ⟨value, before.length, he, ?_⟩
  rw [hsplit, List.getElem?_append_right (Nat.le_refl _), Nat.sub_self]
  rfl

end Yaml

namespace Seeder

variable {σ : Type} {source : Source σ}

/-- A call that answers has read, resolved and decoded a file and inserted all its records. -/
theorem exists_of_populate_ok {q : Request σ} {filename : String} {decoder : Decoder σ}
    (hq : q.file? = some (filename, decoder)) {s s' : Seeder} {w w' : σ} {ids : List Identifier}
    (h : q.perform source (s, w) = (.ok ids, (s', w'))) :
    ∃ text m calls w₂ w₃, decoder text w₂ = (.ok m, w₃) ∧
      Ends (q.perform source) (q.noting.perform source.noting) s w [] (.ok ids) s' calls w' ∧
      calls.filterMap Call.text? = [text] ∧
      calls.filterMap Call.record? = m.entries.map Prod.snd ∧
      ids.length = m.size ∧ s'.names = s.names.registered (m.keys.zip ids) := by
  obtain ⟨insert, hp, hn⟩ := Request.exists_inserter hq source
  rw [hp] at h
  rw [hp, hn]
  obtain ⟨r, s₁, new, w₁, hends, he⟩ := exists_ending source filename decoder insert s [] w
  cases hends.1.symm.trans h
  cases he with
  | finished yields asked each =>
    cases yields with
    | decoded read tags decode =>
      refine ⟨_, _, _, _, _, decode, hends, ?_, ?_, each.length, (registerAll_kept filename _ _).1⟩
      · rw [List.filterMap_append, asked.text?_of_resolved read tags, insertCalls_text?]
        rfl
      · rw [List.filterMap_append, asked.record?, insertCalls_record? each.length]
        rfl

/-- A label keeps its identifier as long as nothing is inserted under it. -/
theorem lookup_performAll (source : Source σ) (requests : List (Request σ)) {s s' : Seeder}
    {w w' : σ} {calls : List Call} {label : String}
    (h : performAll source.noting (requests.map Request.noting) (s, ([], w)) = (s', (calls, w')))
    (hn : ∀ id, (label, id) ∉ Call.inserted [] calls) : s'.lookup label = s.lookup label := by
  obtain ⟨s₁, w₁, new, added, -, hwatched, hnames, hadds⟩ := performAll_ends source requests s [] w
  rw [List.nil_append] at hwatched
  cases hwatched.symm.trans h
  rw [lookup, lookup, hnames]
  refine Registry.lookup_registered_of_not_mem _ fun hmem => ?_
  obtain ⟨⟨label', id⟩, hp, rfl⟩ := List.mem_map.1 hmem
  rw [hadds.inserted_eq] at hn
  exact hn id hp

/-- After any session from a new seeder and a call that populates a file: a reference by the label
of a key that no later key of the file has stands for the identifier of the key's record, until
something else is inserted under this label. The label is the text of the key's value in the version
of the document. For a plain key without a tag that is the text of the key, unless in this version
it respells null, a boolean or a number, is an instant, or merges other maps. -/
theorem label_resolves (source : Source σ) (dir : String) (requests : List (Request σ)) (w : σ) :
    ∃ s w', performAll source requests ({ baseDir := dir }, w) = (s, w') ∧
      ∀ q filename, Request.file? q = some (filename, Yaml.decoder) →
      ∀ ids s₁ w₁, q.perform source (s, w') = (.ok ids, (s₁, w₁)) →
        ∃ text m calls, Yaml.records text = .ok m ∧
          Ends (q.perform source) (q.noting.perform source.noting) s w' [] (.ok ids) s₁ calls w₁ ∧
          calls.filterMap Call.text? = [text] ∧
          calls.filterMap Call.record? = m.entries.map Prod.snd ∧ ids.length = m.size ∧
          ∀ label pairs, Yaml.document? text = some (some (.map label pairs)) →
            ∃ version entries, Yaml.version? text = some version ∧ m = .ofList entries ∧
            Yaml.Entered version label pairs entries ∧
            (∀ keyLabel key v, (Yaml.Node.scalar keyLabel key, v) ∈ pairs →
              key.style = .plain → keyLabel.tag = none →
              ((Yaml.Node.scalar keyLabel key).recordLabel? = some (.ofList key.text) ↔
                key.text ∉ Yaml.Scalar.respelled version ∧
                  (∀ x, Yaml.Scalar.number? version key.text = some x → x.text = .ofList key.text) ∧
                  Yaml.Scalar.instant? version key.text = none ∧
                  (version = .v1_1 → key.text ≠ Yaml.Scalar.mergeKey.toList))) ∧
            ∀ (i : Nat) p key, pairs[i]? = some p → p.1.recordLabel? = some key →
              (∀ (j : Nat) p, pairs[j]? = some p → i < j → p.1.recordLabel? ≠ some key) →
              ∃ (value : Value) (n : Nat) (id : Identifier), entries[i]? = some (key, value) ∧
                m.entries[n]? = some (key, value) ∧ ids[n]? = some id ∧
                ∀ (later : List (Request σ)) s₂ w₂ new,
                  performAll source.noting (later.map Request.noting) (s₁, ([], w₁)) =
                    (s₂, (new, w₂)) →
                  (∀ id', (key, id') ∉ Call.inserted [] new) →
                  ∀ tag : Tag, tag.directive = "REF" → tag.key = key →
                  ∀ w₃, tag.resolve ⟨s₂.names, source.environment⟩ w₃ = (.ok id.toText, w₃) := by
  refine ⟨_, _, rfl, fun q filename hq ids s₁ w₁ hrun => ?_⟩
  obtain ⟨text, m, calls, w₂, w₃, hdecode, hends, htext, hrecords, hlength, hnames⟩ :=
    exists_of_populate_ok hq hrun
  have hm : Yaml.records text = .ok m := (Yaml.decoder_eq_ok_iff.1 hdecode).1
  refine ⟨text, m, calls, hm, hends, htext, hrecords, hlength, fun label pairs hdocument => ?_⟩
  obtain ⟨version, hversion, hdistinct⟩ := Yaml.distinct_of_document? hdocument
  obtain ⟨hnone, -⟩ | ⟨version', label', pairs', entries, hdocument', hversion', rfl, hentered⟩ :=
    Yaml.exists_entered hm
  · cases hnone.symm.trans hdocument
  cases hdocument'.symm.trans hdocument
  cases hversion'.symm.trans hversion
  refine ⟨version, entries, hversion, rfl, hentered, fun keyLabel key v hmem hstyle htag => ?_,
    fun i p key hi hkey hlast => ?_⟩
  · exact Yaml.recordLabel?_of_plain (hdistinct.valued _ hmem) hstyle htag
  · obtain ⟨value, n, hentry, hn⟩ := hentered.exists_getElem? hi hkey hlast
    obtain ⟨hlt, -⟩ := List.getElem?_eq_some_iff.1 hn
    obtain ⟨id, hid⟩ : ∃ id, ids[n]? = some id :=
      ⟨_, List.getElem?_eq_getElem (Nat.lt_of_lt_of_eq hlt hlength.symm)⟩
    refine ⟨value, n, id, hentry, hn, hid, fun later s₂ w₂ new hlater hnew tag href htag w₃ => ?_⟩
    have hlookup : s₁.lookup key = some id.toText := by
      rw [lookup, hnames, Registry.lookup_registered, Keyed.lookup_zip hn hid]
      rfl
    rw [← lookup_performAll source later hlater hnew, ← htag, lookup] at hlookup
    rw [Tag.resolve_ref _ href, hlookup]
    rfl

/-! ### A key that is a number in another base -/

/-- The texts of the plain keys at a root. -/
def plainKeys (root : Option (Option Yaml.Node)) : List String :=
  match root with
  | some (some (.map _ pairs)) => pairs.filterMap fun p =>
      match p.1 with
      | .scalar _ s => if s.style = .plain then some (.ofList s.text) else none
      | _ => none
  | _ => []

/-- Any file holds one record, under `0x10`. -/
def hexadecimal : Source Unit where
  reader _ _ := fun w => (.ok "0x10:\n  n: 1\n", w)
  environment _ := fun w => (.ok none, w)

def sixteen : Except Thrown (List Identifier) × Seeder × Unit :=
  (Request.populate "a.yml" Yaml.decoder fun _ _ w => (.ok (.integer 7), w)).perform hexadecimal
    ({ baseDir := "" }, ())

/-- The record is registered under `16`, and a reference to `0x10` fails. -/
theorem sixteen_label : plainKeys (Yaml.document? "0x10:\n  n: 1\n") = ["0x10"] ∧
    sixteen.1.toOption = some [.integer 7] ∧ sixteen.2.1.lookup "16" = some "7" ∧
    (Tag.resolve ⟨sixteen.2.1.names, hexadecimal.environment⟩ ⟨"REF", "0x10", none⟩ ()).1.toOption =
      none := by
  decide +kernel

end Seeder

end Seedbed
