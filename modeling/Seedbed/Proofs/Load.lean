import Seedbed.Load
import Seedbed.Proofs.Action

/-! A load stage by stage. The reader is called first; the tags are replaced only in a text that it
answered with, and the decoder is called only with the text that results. -/

namespace Seedbed

variable {σ : Type} {source : Source σ} {filename : String} {decoder : Decoder σ}
  {dir : Option String} {names : Registry} {w w₁ w₂ w₃ : σ} {raw text : String}

theorem loadRecords_of_unread {e : Thrown} (h : source.reader filename dir w = (.error e, w₁)) :
    loadRecords source filename decoder dir names w =
      (.error (Load.leaving filename (.notOpened filename (Load.inFile filename)) e), w₁) :=
  Action.bind_error (Action.adapt_error h)

theorem loadRecords_of_unresolved {e : Thrown} (h : source.reader filename dir w = (.ok raw, w₁))
    (hs : substitute ⟨names, source.environment⟩ raw w₁ = (.error e, w₂)) :
    loadRecords source filename decoder dir names w =
      (.error (Load.leavingTags filename e), w₂) := by
  have hread : Load.readText source filename dir w = (.ok raw, w₁) := Action.adapt_ok h
  exact (Action.bind_ok hread).trans (Action.bind_error (Action.adapt_error hs))

theorem loadRecords_of_resolved (h : source.reader filename dir w = (.ok raw, w₁))
    (hs : substitute ⟨names, source.environment⟩ raw w₁ = (.ok text, w₂)) :
    loadRecords source filename decoder dir names w = Load.decodeText decoder filename text w₂ := by
  have hread : Load.readText source filename dir w = (.ok raw, w₁) := Action.adapt_ok h
  have htags : Load.replaceTags source names filename raw w₁ = (.ok text, w₂) := Action.adapt_ok hs
  exact (Action.bind_ok hread).trans (Action.bind_ok htags)

theorem decodeText_ok {records : Records} (h : decoder text w = (.ok records, w₁)) :
    Load.decodeText decoder filename text w = (.ok records, w₁) :=
  Action.adapt_ok h

theorem decodeText_error {e : Thrown} (h : decoder text w = (.error e, w₁)) :
    Load.decodeText decoder filename text w =
      (.error (Load.leaving filename (.undecodable filename) e), w₁) :=
  Action.adapt_error h

/-- Each stage answers, and the decoder with these records. -/
inductive LoadYields (source : Source σ) (filename : String) (decoder : Decoder σ)
    (dir : Option String) (names : Registry) (w : σ) (records : Records) : σ → Prop
  | decoded {raw text : String} {w₁ w₂ w₃ : σ}
      (read : source.reader filename dir w = (.ok raw, w₁))
      (tags : substitute ⟨names, source.environment⟩ raw w₁ = (.ok text, w₂))
      (decode : decoder text w₂ = (.ok records, w₃)) :
      LoadYields source filename decoder dir names w records w₃

inductive LoadFails (source : Source σ) (filename : String) (decoder : Decoder σ)
    (dir : Option String) (names : Registry) (w : σ) : σ → Prop
  | unread {e : Thrown} {w₁ : σ} (read : source.reader filename dir w = (.error e, w₁)) :
      LoadFails source filename decoder dir names w w₁
  | unresolved {raw : String} {e : Thrown} {w₁ w₂ : σ}
      (read : source.reader filename dir w = (.ok raw, w₁))
      (tags : substitute ⟨names, source.environment⟩ raw w₁ = (.error e, w₂)) :
      LoadFails source filename decoder dir names w w₂
  | undecoded {raw text : String} {e : Thrown} {w₁ w₂ w₃ : σ}
      (read : source.reader filename dir w = (.ok raw, w₁))
      (tags : substitute ⟨names, source.environment⟩ raw w₁ = (.ok text, w₂))
      (decode : decoder text w₂ = (.error e, w₃)) :
      LoadFails source filename decoder dir names w w₃

theorem LoadYields.run {records : Records}
    (h : LoadYields source filename decoder dir names w records w₁) :
    loadRecords source filename decoder dir names w = (.ok records, w₁) := by
  cases h with
  | decoded read tags decode =>
    exact (loadRecords_of_resolved read tags).trans (decodeText_ok decode)

theorem LoadFails.run (h : LoadFails source filename decoder dir names w w₁) :
    ∃ e, loadRecords source filename decoder dir names w = (.error e, w₁) := by
  cases h with
  | unread read => exact ⟨_, loadRecords_of_unread read⟩
  | unresolved read tags => exact ⟨_, loadRecords_of_unresolved read tags⟩
  | undecoded read tags decode =>
    exact ⟨_, (loadRecords_of_resolved read tags).trans (decodeText_error decode)⟩

theorem loadFails_or_yields (source : Source σ) (filename : String) (decoder : Decoder σ)
    (dir : Option String) (names : Registry) (w : σ) :
    (∃ w', LoadFails source filename decoder dir names w w') ∨
      ∃ records w', LoadYields source filename decoder dir names w records w' := by
  rcases Action.run_cases (source.reader filename dir) w with ⟨raw, w₁, hr⟩ | ⟨e, w₁, hr⟩
  · rcases Action.run_cases (substitute ⟨names, source.environment⟩ raw) w₁ with
      ⟨text, w₂, hs⟩ | ⟨e, w₂, hs⟩
    · rcases Action.run_cases (decoder text) w₂ with ⟨records, w₃, hd⟩ | ⟨e, w₃, hd⟩
      · exact .inr ⟨records, w₃, .decoded hr hs hd⟩
      · exact .inl ⟨w₃, .undecoded hr hs hd⟩
    · exact .inl ⟨w₂, .unresolved hr hs⟩
  · exact .inl ⟨w₁, .unread hr⟩

theorem LoadYields.of_run {records : Records}
    (h : loadRecords source filename decoder dir names w = (.ok records, w₁)) :
    LoadYields source filename decoder dir names w records w₁ := by
  rcases loadFails_or_yields source filename decoder dir names w with
    ⟨w', hf⟩ | ⟨records', w', hy⟩
  · obtain ⟨e, he⟩ := hf.run
    cases he.symm.trans h
  · cases hy.run.symm.trans h
    exact hy

def Source.ofText (text : String) : Source σ where
  reader _ _ := pure text
  environment := .ofVariables []

def Decoder.single (label : String) : Decoder σ := fun text => pure (.ofList [(label, .text text)])

end Seedbed
