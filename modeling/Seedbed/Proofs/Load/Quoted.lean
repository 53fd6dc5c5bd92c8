import Seedbed.Proofs.Load
import Seedbed.Proofs.Tag.Split
import Seedbed.Proofs.Yaml.Quoted
import Seedbed.Proofs.Yaml.Records

/-! A quoted default that is loaded. It is put in with its quotes, so what stood between the quotes
of the default stands between the quotes of a scalar, and neither the scan for tags nor YAML sees
anything else in it. -/

namespace Seedbed

/-- A character that a quoted default can hold stands for itself between double quotes, unless it is
a backslash. -/
theorem Tag.IsQuoted.isVerbatim {c : Char} (h : IsQuoted c) (hslash : c ≠ '\\') :
    Yaml.IsVerbatim c := by
  obtain ⟨hquote, hcontrol, -⟩ := h
  refine ⟨hquote, hslash, ?_, ?_⟩
  · rintro rfl
    exact absurd hcontrol (by decide)
  · rintro rfl
    exact absurd hcontrol (by decide)

section quoted

variable {σ : Type} {tag : Tag.Spelling} {fallback : Tag.Fallback} {inner : Tag.Token Tag.IsQuoted}
  {scope : Scope σ} {w w' : σ}

theorem resolve_quoted (henv : tag.tag.directive = "ENV") (hf : tag.fallback = some fallback)
    (hv : fallback.value = .quoted inner)
    (unset : scope.environment tag.tag.key w = (.ok none, w')) :
    tag.tag.resolve scope w = (.ok (.ofList (Yaml.enclosed inner.val)), w') := by
  have hfallback : tag.tag.fallback = some (.ofList (Yaml.enclosed inner.val)) := by
    simp [Tag.Spelling.tag, hf, hv, Tag.Default.text, Yaml.enclosed]
  rw [Tag.resolve_env _ henv, Action.bind_ok unset, hfallback]
  rfl

theorem substitute_quoted {raw : String} {lead tail : List Char} (hlead : '$' ∉ lead)
    (htail : '$' ∉ tail) (hraw : raw.toList = lead ++ (tag.text ++ tail))
    (henv : tag.tag.directive = "ENV") (hf : tag.fallback = some fallback)
    (hv : fallback.value = .quoted inner)
    (unset : scope.environment tag.tag.key w = (.ok none, w')) :
    substitute scope raw w = (.ok (.ofList (lead ++ (Yaml.enclosed inner.val ++ tail))), w') := by
  have hsubstitute := substitute_ok ((Split.text_single lead tag tail).trans hraw.symm)
    (Split.clear_single tag hlead htail) (.cons (resolve_quoted henv hf hv unset) .nil)
  rwa [Split.fill_single, String.toList_ofList] at hsubstitute

/-- A file whose one record is the tag of a variable that is not set, with a default in quotes:
whatever characters but a backslash stand between the quotes, and wherever blanks stand in the tag,
the file loads, its only record is the text between the quotes, and nothing but the one variable is
asked for. -/
theorem quoted_default_loads (source : Source σ) (filename : String) (dir : Option String)
    (names : Registry) {w w₁ w₂ : σ} {raw : String} {tail : List Char}
    (read : source.reader filename dir w = (.ok raw, w₁)) (htail : Yaml.Scan.IsTail tail)
    (hraw : raw.toList = "k: ".toList ++ (tag.text ++ tail)) (henv : tag.tag.directive = "ENV")
    (hf : tag.fallback = some fallback) (hv : fallback.value = .quoted inner)
    (hslash : '\\' ∉ inner.val) (unset : source.environment tag.tag.key w₁ = (.ok none, w₂)) :
    ∃ records, loadRecords source filename Yaml.decoder dir names w = (.ok records, w₂) ∧
      records.entries = [("k", .text (.ofList inner.val))] := by
  have hverbatim : ∀ c ∈ inner.val, Yaml.IsVerbatim c := fun c hc =>
    (inner.property.2 c hc).isVerbatim (ne_of_mem_of_not_mem hc hslash)
  have htags : substitute ⟨names, source.environment⟩ raw w₁ =
      (.ok (.ofList (Yaml.quotedStart ++ (Yaml.enclosed inner.val ++ tail))), w₂) :=
    substitute_quoted (by decide) htail.not_mem hraw henv hf hv unset
  have hrecords := Yaml.records_quoted hverbatim htail
  exact ⟨_, (LoadYields.decoded read htags (Yaml.decoder_eq_ok_iff.2 ⟨hrecords, rfl⟩)).run, rfl⟩

end quoted

/-! ### A default that imitates tags and YAML -/

def Tag.Token.of {P : Char → Prop} [DecidablePred P] (cs : List Char)
    (h : cs ≠ [] ∧ cs.all (fun c => decide (P c)) = true) : Tag.Token P :=
  ⟨cs, h.1, fun c hc => of_decide_eq_true (List.all_eq_true.1 h.2 c hc)⟩

def Tag.Blanks.of (cs : List Char) (h : cs.all (fun c => decide (Tag.IsWhite c)) = true) :
    Tag.Blanks :=
  ⟨cs, fun c hc => of_decide_eq_true (List.all_eq_true.1 h c hc)⟩

/-- Ends of a tag, a comment, a key, a tag that can not be resolved, and blanks at both ends. -/
def Tag.imitation : Tag.Token Tag.IsQuoted :=
  .of " ) \x7d\x7d # a: $\x7b\x7b REF(x) \x7d\x7d 😀 ".toList (by decide)

def Tag.imitating : Tag.Spelling where
  beforeDirective := .of ['\t'] (by decide)
  directive := .of "ENV".toList (by decide)
  afterDirective := .of [] (by decide)
  beforeKey := .of [' ', '\n'] (by decide)
  key := .of "X".toList (by decide)
  fallback := some ⟨.of [] (by decide), .of [' '] (by decide), .quoted Tag.imitation⟩
  afterArguments := .of ['\u00A0'] (by decide)
  beforeClosing := .of [] (by decide)

def imitatingSource : Source (List String) where
  reader _ _ := fun asked => (.ok (.ofList ("k: ".toList ++ (Tag.imitating.text ++ ['\n']))), asked)
  environment key := fun asked => (.ok none, asked ++ [key])

/-- The file loads, and only the variable of the outer tag is asked for. -/
theorem imitation_loads : ∃ records,
    loadRecords imitatingSource "f.yml" Yaml.decoder none .empty [] = (.ok records, ["X"]) ∧
      records.entries = [("k", .text " ) \x7d\x7d # a: $\x7b\x7b REF(x) \x7d\x7d 😀 ")] :=
  quoted_default_loads imitatingSource "f.yml" none .empty rfl (.inr rfl)
    (String.toList_ofList ..) rfl rfl rfl (by decide) rfl

end Seedbed
