import Seedbed.Proofs.Calls
import Seedbed.Proofs.Seeder.Populate

/-! The stages of a load, with the calls of each. The reader is called once; the tags are replaced
once in the text that it answers with, against the given names; and the decoder is called once with
the text that results. The first stage that throws ends the load. Faults pass with the file added to
their context, and foreign errors of the reader and of the decoder become the cause of a fault. -/

namespace Seedbed

variable {σ : Type}

/-! ### Errors -/

namespace Fault

/-- The same fault with the file in its context, unless a file is named there already. -/
structure Located (filename : String) (f g : Fault) : Prop where
  code : g.code = f.code
  message : g.message = f.message
  cause : g.cause = f.cause
  retryable : g.retryable = f.retryable
  context : g.context = { f.context with filename := some (f.context.filename.getD filename) }

theorem located_withContext (filename : String) (f : Fault) :
    Located filename f (f.withContext (Load.inFile filename)) where
  code := rfl
  message := rfl
  cause := rfl
  retryable := rfl
  context := by
    rw [FaultWith.withContext_context]
    cases hf : f.context.filename with
    | none | some _ => simp [Context.orElse, Load.inFile, hf]

/-- A fault about the file and nothing else, with a foreign error as its cause. An absent value is
no cause, and none is given for it. -/
structure Wraps (filename : String) (code : Code) (message : String) (e : Thrown) (g : Fault) :
    Prop where
  code : g.code = code
  message : g.message = message
  cause : g.cause.getD (.value .absent) = e
  retryable : g.retryable = false
  context : g.context = { filename := some filename }

theorem wraps_withCause {filename : String} {f : Fault} (hc : f.cause = none)
    (hr : f.retryable = false) (hf : f.context = { filename := some filename }) (e : Thrown) :
    Wraps filename f.code f.message e (f.withCause e) where
  code := withCause_code f e
  message := by
    unfold withCause
    split <;> rfl
  cause := withCause_cause hc e
  retryable := by
    unfold withCause
    split <;> exact hr
  context := (withCause_context f e).trans hf

end Fault

inductive LeavesAs (filename : String) (code : Fault.Code) (message : String) :
    Thrown → Thrown → Prop
  | located {f g : Fault} (h : f.Located filename g) :
      LeavesAs filename code message (.fault f) (.fault g)
  | wrapped {e : Thrown} {g : Fault} (foreign : e.isFault = false)
      (h : Fault.Wraps filename code message e g) : LeavesAs filename code message e (.fault g)

inductive LeavesTagsAs (filename : String) : Thrown → Thrown → Prop
  | located {f g : Fault} (h : f.Located filename g) : LeavesTagsAs filename (.fault f) (.fault g)
  | foreign {e : Thrown} (foreign : e.isFault = false) : LeavesTagsAs filename e e

theorem leavesAs_leaving {filename : String} (f : Fault) (hc : f.cause = none)
    (hr : f.retryable = false) (hf : f.context = { filename := some filename }) (e : Thrown) :
    LeavesAs filename f.code f.message e (Load.leaving filename f e) := by
  cases e with
  | fault g => exact .located (Fault.located_withContext filename g)
  | failure e => exact .wrapped rfl (Fault.wraps_withCause hc hr hf _)
  | value v => exact .wrapped rfl (Fault.wraps_withCause hc hr hf _)

theorem leavesAs_notOpened (filename : String) (e : Thrown) :
    LeavesAs filename .notFound s!"can't open the file: {filename}" e
      (Load.leaving filename (.notOpened filename (Load.inFile filename)) e) :=
  leavesAs_leaving (.notOpened filename (Load.inFile filename)) rfl rfl rfl e

theorem leavesAs_undecodable (filename : String) (e : Thrown) :
    LeavesAs filename .decodeFailed s!"decoding failed, check the file: {filename}" e
      (Load.leaving filename (.undecodable filename) e) :=
  leavesAs_leaving (.undecodable filename) rfl rfl rfl e

theorem leavesTagsAs_leavingTags (filename : String) (e : Thrown) :
    LeavesTagsAs filename e (Load.leavingTags filename e) := by
  cases e with
  | fault f => exact .located (Fault.located_withContext filename f)
  | failure e => exact .foreign rfl
  | value v => exact .foreign rfl

/-! ### Stages -/

/-- The file is read, and with the tags in its text replaced once this results; the calls of that
are `asks`. `calls` are written down before. -/
inductive Replaced (source : Source σ) (filename : String) (dir : Option String) (names : Registry)
    (calls : List Call) (w : σ) (raw : String) (asks : List Call) (r : Except Thrown String)
    (w₂ : σ) : Prop
  | intro {w₁ : σ} (read : source.reader filename dir w = (.ok raw, w₁))
      (tags : substitute ⟨names, source.environment⟩ raw w₁ = (r, w₂))
      (watched : substitute ⟨names, source.noting.environment⟩ raw
        (calls ++ [.read filename dir (.ok raw)], w₁) =
          (r, (calls ++ .read filename dir (.ok raw) :: asks, w₂)))
      (asked : ∀ c ∈ asks, c.IsAsk)

/-- The stages of a load: the calls they make, what the load answers or throws, and the state that
they leave. -/
inductive Staged (source : Source σ) (filename : String) (decoder : Decoder σ)
    (dir : Option String) (names : Registry) (calls : List Call) (w : σ) :
    List Call → Except Thrown Records → σ → Prop
  | unread {e e' : Thrown} {w₁ : σ} (read : source.reader filename dir w = (.error e, w₁))
      (leaves : LeavesAs filename .notFound s!"can't open the file: {filename}" e e') :
      Staged source filename decoder dir names calls w [.read filename dir (.error e)]
        (.error e') w₁
  | unresolved {raw : String} {e e' : Thrown} {w₂ : σ} {asks : List Call}
      (replaced : Replaced source filename dir names calls w raw asks (.error e) w₂)
      (leaves : LeavesTagsAs filename e e') :
      Staged source filename decoder dir names calls w (.read filename dir (.ok raw) :: asks)
        (.error e') w₂
  | undecoded {raw text : String} {e e' : Thrown} {w₂ w₃ : σ} {asks : List Call}
      (replaced : Replaced source filename dir names calls w raw asks (.ok text) w₂)
      (decode : decoder text w₂ = (.error e, w₃))
      (leaves :
        LeavesAs filename .decodeFailed s!"decoding failed, check the file: {filename}" e e') :
      Staged source filename decoder dir names calls w
        (.read filename dir (.ok raw) :: (asks ++ [.decode text (.error e)])) (.error e') w₃
  | decoded {raw text : String} {records : Records} {w₂ w₃ : σ} {asks : List Call}
      (replaced : Replaced source filename dir names calls w raw asks (.ok text) w₂)
      (decode : decoder text w₂ = (.ok records, w₃)) :
      Staged source filename decoder dir names calls w
        (.read filename dir (.ok raw) :: (asks ++ [.decode text (.ok records)])) (.ok records) w₃

theorem exists_replaced {source : Source σ} {filename raw : String} {dir : Option String}
    {w w₁ : σ} (names : Registry) (calls : List Call)
    (h : source.reader filename dir w = (.ok raw, w₁)) :
    ∃ r w₂ asks, Replaced source filename dir names calls w raw asks r w₂ := by
  obtain ⟨asks, hasks, hs⟩ := watches_substitute source names raw
    (calls ++ [.read filename dir (.ok raw)]) w₁
  rw [List.append_assoc, List.singleton_append] at hs
  exact ⟨_, _, asks, .intro h rfl hs hasks⟩

/-- Whatever the caller's functions do, a load runs its stages once and in order, and ends with the
first that throws. Its calls are those of the stages that it came to. -/
theorem load_in_stages (source : Source σ) (filename : String) (decoder : Decoder σ)
    (dir : Option String) (names : Registry) (calls : List Call) (w : σ) :
    ∃ new r w', Staged source filename decoder dir names calls w new r w' ∧
      loadRecords source filename decoder dir names w = (r, w') ∧
      loadRecords source.noting filename decoder.noting dir names (calls, w) =
        (r, (calls ++ new, w')) := by
  rcases Action.run_cases (source.reader filename dir) w with ⟨raw, w₁, hr⟩ | ⟨e, w₁, hr⟩
  · obtain ⟨r, w₂, asks, hreplaced⟩ := exists_replaced names calls hr
    have ⟨hread, htags, hwatched, _⟩ := hreplaced
    have hread' := Source.reader_noting hread calls
    cases r with
    | error e =>
      refine ⟨_, _, _, .unresolved hreplaced (leavesTagsAs_leavingTags filename e), ?_, ?_⟩
      · exact loadRecords_of_unresolved hread htags
      · exact loadRecords_of_unresolved hread' hwatched
    | ok text =>
      rcases Action.run_cases (decoder text) w₂ with ⟨records, w₃, hd⟩ | ⟨e, w₃, hd⟩
      · refine ⟨_, _, _, .decoded hreplaced hd, ?_, ?_⟩
        · rw [loadRecords_of_resolved hread htags, decodeText_ok hd]
        · rw [loadRecords_of_resolved hread' hwatched, decodeText_ok (Decoder.noting_run hd _)]
          simp
      · refine ⟨_, _, _, .undecoded hreplaced hd (leavesAs_undecodable filename e), ?_, ?_⟩
        · rw [loadRecords_of_resolved hread htags, decodeText_error hd]
        · rw [loadRecords_of_resolved hread' hwatched, decodeText_error (Decoder.noting_run hd _)]
          simp
  · refine ⟨_, _, _, .unread hr (leavesAs_notOpened filename e), ?_, ?_⟩
    · exact loadRecords_of_unread hr
    · exact loadRecords_of_unread (Source.reader_noting hr calls)

end Seedbed
