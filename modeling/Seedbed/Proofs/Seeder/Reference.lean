import Seedbed.Proofs.Binary64.Text
import Seedbed.Proofs.Seeder.Session
import Seedbed.Proofs.Yaml.Records
import Seedbed.Proofs.Yaml.Row

/-! References from one file to a record of another. The text of an identifier is put in the place
of the reference before the file is decoded, so it arrives as the value of a plain scalar: an
identifier is carried if the text of this value is its own. -/

namespace Seedbed

namespace Identifier

/-- A whole number as a double or of any size, or a text of letters and digits. -/
def Plain : Identifier → Prop
  | number x => ∃ n, x.toInt? = some n
  | integer _ => True
  | text s => s.toList ≠ [] ∧ ∀ c ∈ s.toList, c.isAlphanum

/-- What a plain scalar of the identifier's text is read as. -/
def read (id : Identifier) : Value := Yaml.Scalar.plainValue .v1_2 id.toText.toList

/-- The identifier is the text of what it is read as: any double is, a number of any size if a
double has this text, and a text unless it respells null or a boolean or a number. -/
def Carried : Identifier → Prop
  | number _ => True
  | integer n => (Binary64.ofInt n).text = toString n
  | text s => s.toList ∉ Yaml.Scalar.respelled .v1_2 ∧
      ∀ x, Yaml.Scalar.number? .v1_2 s.toList = some x → x.text = s

theorem toText_read_iff {id : Identifier} (h : id.Plain) :
    id.read.toText = id.toText ↔ id.Carried := by
  cases id with
  | number x =>
    obtain ⟨n, hn⟩ := h
    obtain ⟨y, hread, htext⟩ := Binary64.exists_read?_text hn
    have hval : (number x).read = .number y.value := Yaml.Scalar.plainValue_of_read? hread
    rw [hval]
    exact iff_of_true htext trivial
  | integer n =>
    obtain ⟨y, hread, hvalue⟩ := Binary64.exists_read?_toString n
    have hval : (integer n).read = .number y.value := Yaml.Scalar.plainValue_of_read? hread
    rw [hval, hvalue]
    exact Iff.rfl
  | text s =>
    have hiff := Yaml.Scalar.toText_plainValue_iff .v1_2 s.toList
    rw [String.ofList_toList] at hiff
    exact hiff.trans (and_congr_right fun _ => and_iff_left rfl)

/-- Whole numbers up to 2⁵³ are carried. -/
theorem carried_of_natAbs_le {n : Int} (h : n.natAbs ≤ 9007199254740992) : (integer n).Carried :=
  Binary64.text_ofInt h

theorem simple_of_digit (negative : Bool) {c : Char} {rest : List Char} (hc : c.isDigit)
    (hrest : ∀ d ∈ rest, Yaml.IsInner d) :
    Yaml.Simple (Numeral.minus negative ++ c :: rest) := by
  have halnum : c.isAlphanum := by simp [Char.isAlphanum, hc]
  cases negative with
  | false =>
    refine ⟨fun d hd => ?_, c, rest, rfl, .inl halnum⟩
    rcases List.mem_cons.1 hd with rfl | hd
    · exact .inl halnum
    · exact hrest d hd
  | true =>
    refine ⟨fun d hd => ?_, '-', c :: rest, rfl, .inr ⟨rfl, c, rfl, halnum⟩⟩
    rcases List.mem_cons.1 hd with rfl | hd
    · exact .inr (.inr (.inl rfl))
    rcases List.mem_cons.1 hd with rfl | hd
    · exact .inl halnum
    · exact hrest d hd

theorem simple_toText {id : Identifier} (h : id.Plain) : Yaml.Simple id.toText.toList := by
  have hinner (d : Char) (hd : d.isDigit) : Yaml.IsInner d := .inl (by simp [Char.isAlphanum, hd])
  cases id with
  | number x =>
    obtain ⟨n, hn⟩ := h
    obtain ⟨negative, c, rest, htext, hc, hrest⟩ := Binary64.exists_text hn
    show Yaml.Simple x.text.toList
    rw [htext]
    refine simple_of_digit negative hc fun d hd => ?_
    rcases hrest d hd with hd | rfl | rfl | rfl
    · exact hinner d hd
    all_goals decide
  | integer n =>
    obtain ⟨c, cs, hcs⟩ := List.exists_cons_of_ne_nil (decimalDigits_ne_nil n.natAbs)
    have hdigits := digits_decimalDigits n.natAbs
    show Yaml.Simple (toString n).toList
    rw [Binary64.toList_toString, hcs]
    rw [hcs] at hdigits
    exact simple_of_digit _ (hdigits c List.mem_cons_self) fun d hd =>
      hinner d (hdigits d (List.mem_cons_of_mem c hd))
  | text s =>
    obtain ⟨c, rest, hs⟩ := List.exists_cons_of_ne_nil h.1
    exact ⟨fun d hd => .inl (h.2 d hd), c, rest, hs,
      .inl (h.2 c (by rw [hs]; exact List.mem_cons_self))⟩

end Identifier

namespace Seeder

/-- A file of one record whose one field is a tag. -/
def rowFile (tag : Tag.Spelling) (tail : List Char) : Split where
  pieces := [("row:\n  f: ".toList, tag)]
  tail := tail

theorem clear_rowFile (tag : Tag.Spelling) {tail : List Char} (h : Yaml.Scan.IsTail tail) :
    (rowFile tag tail).Clear := Split.clear_single tag (by decide) h.not_mem

theorem fill_rowFile (tag : Tag.Spelling) (tail : List Char) (text : String) :
    (rowFile tag tail).fill [text] = Yaml.rowStart ++ (text.toList ++ tail) :=
  Split.fill_single Yaml.rowStart tag tail text

section reference

variable {σ : Type} {source : Source σ} {s : Seeder} {w w₁ : σ} {q : Request σ}
  {filename raw text : String} {tag : Tag.Spelling} {tail : List Char}

/-- The one record of the file is inserted, once and with the text that the reference stands for as
a plain scalar. -/
theorem reference_ends (hq : q.file? = some (filename, Yaml.decoder))
    (read : source.reader filename (some s.baseDir) w = (.ok raw, w₁))
    (hraw : raw.toList = (rowFile tag tail).text) (htail : Yaml.Scan.IsTail tail)
    (href : tag.tag.directive = "REF") (hlookup : s.lookup tag.tag.key = some text)
    (hsimple : Yaml.Simple text.toList) (calls : List Call) :
    ∃ r s' new w', Ends (q.perform source) (q.noting.perform source.noting) s w calls r s' new w' ∧
      new.filterMap Call.record? = [.record [("f", Yaml.Scalar.plainValue .v1_2 text.toList)]] := by
  obtain ⟨insert, hp, hn⟩ := Request.exists_inserter hq source
  have hresolve : tag.tag.resolve ⟨s.names, source.environment⟩ w₁ = (.ok text, w₁) := by
    rw [Tag.resolve_ref _ href]
    rw [lookup] at hlookup
    rw [hlookup]
    rfl
  have htags : substitute ⟨s.names, source.environment⟩ raw w₁ =
      (.ok (.ofList ((rowFile tag tail).fill [text])), w₁) :=
    substitute_ok hraw.symm (clear_rowFile tag htail) (.cons hresolve .nil)
  rw [fill_rowFile] at htags
  have hload := LoadYields.decoded read htags
    (Yaml.decoder_eq_ok_iff.2 ⟨Yaml.records_row hsimple htail, rfl⟩)
  rw [hp, hn]
  rcases Action.each_or_fails (registering insert) _ (s.names, w₁) with
    ⟨ids, ⟨names, w'⟩, he⟩ | ⟨done, ⟨label, record⟩, ids, e, ⟨names, w'⟩, hf⟩
  · obtain ⟨new, hnew, hends⟩ := ends_finished calls hload.run he
    refine ⟨_, _, _, _, hends, ?_⟩
    rw [List.filterMap_append, hnew.record?, insertCalls_record? he.length]
    rfl
  · obtain ⟨new, hnew, hends⟩ := ends_stopped calls hload.run hf
    -- the first record is the only one
    cases hf with
    | here head =>
      refine ⟨_, _, _, _, hends, ?_⟩
      rw [List.filterMap_append, hnew.record?]
      rfl
    | later head tail => cases tail

/-- After any session from a new seeder, a file whose one field is a reference to a label is
inserted with what the text of the last identifier under this label is read as. The text of that
is the identifier's, as the seeder answers with it, just if the identifier is carried, as all
doubles are and all whole numbers up to 2⁵³. -/
theorem reference_reads (source : Source σ) (dir : String) (requests : List (Request σ)) (w : σ) :
    ∃ s w' calls,
      performAll source requests ({ baseDir := dir }, w) = (s, w') ∧
      performAll source.noting (requests.map Request.noting) ({ baseDir := dir }, ([], w)) =
        (s, (calls, w')) ∧
      ∀ label id, (Call.inserted [] calls).reverse.lookup label = some id → id.Plain →
        s.lookup label = some id.toText ∧
        (∀ q filename, Request.file? q = some (filename, Yaml.decoder) →
          ∀ raw w₁, source.reader filename (some s.baseDir) w' = (.ok raw, w₁) →
          ∀ tag tail, raw.toList = (rowFile tag tail).text → Yaml.Scan.IsTail tail →
            tag.tag.directive = "REF" → tag.tag.key = label →
            ∃ r s' new w'',
              Ends (q.perform source) (q.noting.perform source.noting) s w' calls r s' new w'' ∧
              new.filterMap Call.record? = [.record [("f", id.read)]]) ∧
        (id.read.toText = id.toText ↔ id.Carried) ∧
        (∀ x, id = .number x → id.Carried) ∧
        ∀ n : Int, id = .integer n → n.natAbs ≤ 9007199254740992 → id.Carried := by
  obtain ⟨s, w', calls, added, hrun, hwatched, hnames, hadds⟩ :=
    performAll_ends source requests { baseDir := dir } [] w
  refine ⟨s, w', calls, hrun, hwatched, fun label id hid hplain => ?_⟩
  have hlookup : s.lookup label = some id.toText := by
    rw [hadds.inserted_eq] at hid
    rw [lookup, hnames, Registry.lookup_registered, hid]
    rfl
  refine ⟨hlookup, ?_, Identifier.toText_read_iff hplain, ?_, ?_⟩
  · intro q filename hq raw w₁ read tag tail hraw htail href hkey
    exact reference_ends hq read hraw htail href (by rw [hkey, hlookup])
      (Identifier.simple_toText hplain) calls
  · rintro x rfl
    trivial
  · rintro n rfl hn
    exact Identifier.carried_of_natAbs_le hn

end reference

/-! ### A number that is rounded -/

def twoFiles : Source (List String) where
  reader filename _ := fun seen =>
    (.ok (if filename = "a.yml" then "a:\n  n: 1\n"
      else "row:\n  f: $\x7b\x7b REF(a) \x7d\x7d\n"), seen)
  environment _ := fun seen => (.ok none, seen)

/-- Keeps the text of the field of each record. -/
def keepField (record : Value) (seen : List String) : List String :=
  seen ++ [((record.field? "f").getD .absent).toText]

def rounding : Seeder × List String :=
  let insert : Inserter (List String) := fun _ record seen =>
    (.ok (.integer 9007199254740993), keepField record seen)
  performAll twoFiles [.populate "a.yml" Yaml.decoder insert, .populate "b.yml" Yaml.decoder insert]
    ({ baseDir := "" }, [])

/-- The record with the reference has another number than the one that was registered. -/
theorem rounding_reference : rounding.1.lookup "a" = some "9007199254740993" ∧
    rounding.2 = ["undefined", "9007199254740992"] := by
  decide +kernel

end Seeder

end Seedbed
