import Seedbed.Seeder.Run
import Seedbed.Proofs.Related

/-! The calls of the caller's functions, written down. Any reader, environment, decoder or insert
function can be watched: each of its calls is added to a list kept beside the caller's own state,
and nothing else changes. -/

namespace Seedbed

/-- A call of one of the caller's functions and how it turned out. -/
inductive Call
  | read (filename : String) (baseDir : Option String) (answer : Except Thrown String)
  | ask (key : String) (answer : Except Thrown (Option String))
  | decode (text : String) (answer : Except Thrown Records)
  | insert (record : Value) (answer : Except Thrown Identifier)

namespace Call

/-- The text that a decoder was called with. -/
def text? : Call → Option String
  | decode text _ => some text
  | _ => none

def record? : Call → Option Value
  | insert record _ => some record
  | _ => none

/-- The inserts that answered, each under the label of its record. The records are those that the
last decoder to answer gave, taken in order, one for each insert since; `pending` are the ones left
over from before. -/
def inserted (pending : List (String × Value)) : List Call → List (String × Identifier)
  | [] => []
  | decode _ (.ok records) :: calls => inserted records.entries calls
  | insert _ (.ok id) :: calls =>
    (pending.head?.map fun p => (p.1, id)).toList ++ inserted pending.tail calls
  | insert _ (.error _) :: calls => inserted pending.tail calls
  | _ :: calls => inserted pending calls

/-- The inserts and their answers, each under the label of its record, which is found as for
`inserted`. -/
def answers (pending : List (String × Value)) :
    List Call → List ((String × Value) × Except Thrown Identifier)
  | [] => []
  | decode _ (.ok records) :: calls => answers records.entries calls
  | insert record answer :: calls =>
    (pending.head?.map fun p => ((p.1, record), answer)).toList ++ answers pending.tail calls
  | _ :: calls => answers pending calls

theorem inserted_eq (pending : List (String × Value)) (calls : List Call) :
    inserted pending calls =
      (answers pending calls).filterMap fun p => p.2.toOption.map fun id => (p.1.1, id) := by
  induction calls generalizing pending with
  | nil => rfl
  | cons c calls ih =>
    cases c with
    | read _ _ _ | ask _ _ => exact ih pending
    | decode _ answer =>
      cases answer with
      | ok records => exact ih records.entries
      | error e => exact ih pending
    | insert record answer =>
      cases answer with
      | ok id =>
        rw [inserted, answers, List.filterMap_append, ← ih]
        cases pending <;> rfl
      | error e =>
        rw [inserted, answers, List.filterMap_append, ← ih]
        cases pending <;> rfl

def IsAsk (c : Call) : Prop := ∃ key answer, c = .ask key answer

end Call

namespace Action

variable {σ α β : Type}

def noting (call : Except Thrown α → Call) (a : Action σ α) : Action (List Call × σ) α :=
  fun (calls, w) => ((a w).1, (calls ++ [call (a w).1], (a w).2))

/-- One step does what another one does, and writes down calls of a kind. -/
def Watches (P : Call → Prop) (a : Action (List Call × σ) α) (b : Action σ α) : Prop :=
  ∀ calls w, ∃ new, (∀ c ∈ new, P c) ∧ a (calls, w) = ((b w).1, (calls ++ new, (b w).2))

variable {P : Call → Prop}

theorem watches_noting {call : Except Thrown α → Call} (a : Action σ α) (h : ∀ r, P (call r)) :
    Watches P (a.noting call) a := by
  intro calls w
  exact ⟨[call (a w).1], by simp [h], rfl⟩

theorem Watches.bind {a : Action (List Call × σ) α} {b : Action σ α}
    {f : α → Action (List Call × σ) β} {g : α → Action σ β} (h : Watches P a b)
    (hf : ∀ x, Watches P (f x) (g x)) : Watches P (a >>= f) (b >>= g) := by
  intro calls w
  obtain ⟨new, hnew, ha⟩ := h calls w
  rcases run_cases b w with ⟨x, w₁, hb⟩ | ⟨e, w₁, hb⟩
  · rw [hb] at ha
    obtain ⟨new', hnew', hf'⟩ := hf x (calls ++ new) w₁
    refine ⟨new ++ new', ?_, ?_⟩
    · intro c hc
      rcases List.mem_append.1 hc with hc | hc
      · exact hnew c hc
      · exact hnew' c hc
    · rw [bind_ok ha, bind_ok hb, hf', List.append_assoc]
  · rw [hb] at ha
    exact ⟨new, hnew, by rw [bind_error ha, bind_error hb]⟩

theorem congruence_watches (P : Call → Prop) :
    Congruence fun {α : Type} (a : Action (List Call × σ) α) (b : Action σ α) => Watches P a b where
  run r calls w := ⟨[], by simp, by rw [List.append_nil]⟩
  bind h hf := h.bind hf
  adapt f h calls w := by
    obtain ⟨new, hnew, ha⟩ := h calls w
    exact ⟨new, hnew, by rw [adapt_run, ha]; rfl⟩

end Action

variable {σ : Type}

def Source.noting (source : Source σ) : Source (List Call × σ) where
  reader filename dir := (source.reader filename dir).noting (.read filename dir)
  environment key := (source.environment key).noting (.ask key)

def Decoder.noting (decoder : Decoder σ) : Decoder (List Call × σ) :=
  fun text => (decoder text).noting (.decode text)

def Inserter.noting (insert : Inserter σ) : Inserter (List Call × σ) :=
  fun names record => (insert names record).noting (.insert record)

theorem Source.reader_noting {source : Source σ} {filename : String} {dir : Option String}
    {w w₁ : σ} {r : Except Thrown String} (h : source.reader filename dir w = (r, w₁))
    (calls : List Call) :
    source.noting.reader filename dir (calls, w) = (r, (calls ++ [.read filename dir r], w₁)) := by
  simp [noting, Action.noting, h]

theorem Decoder.noting_run {decoder : Decoder σ} {text : String} {w w₁ : σ}
    {r : Except Thrown Records} (h : decoder text w = (r, w₁)) (calls : List Call) :
    decoder.noting text (calls, w) = (r, (calls ++ [.decode text r], w₁)) := by
  simp [noting, Action.noting, h]

theorem Inserter.noting_run {insert : Inserter σ} {names : Registry} {record : Value} {w w₁ : σ}
    {r : Except Thrown Identifier} (h : insert names record w = (r, w₁)) (calls : List Call) :
    insert.noting names record (calls, w) = (r, (calls ++ [.insert record r], w₁)) := by
  rw [noting, Action.noting, h]

/-! ### Watched loads -/

theorem watches_substitute (source : Source σ) (names : Registry) (text : String) :
    Action.Watches Call.IsAsk (substitute ⟨names, source.noting.environment⟩ text)
      (substitute ⟨names, source.environment⟩ text) := by
  have hrel := Action.congruence_watches (σ := σ) Call.IsAsk
  refine hrel.substitute fun tag _ => hrel.resolve (fun _ => ?_) fun _ => rfl
  exact Action.watches_noting _ fun r => ⟨tag.key, r, rfl⟩

/-- What a load writes down: the call of the reader, then the look-ups of variables, then, where
the text came through, the one call of the decoder. -/
inductive LoadCalls (source : Source σ) (filename : String) (decoder : Decoder σ)
    (dir : Option String) (names : Registry) (w : σ) : List Call → Prop
  | unread {e : Thrown} {w₁ : σ} (read : source.reader filename dir w = (.error e, w₁)) :
      LoadCalls source filename decoder dir names w [.read filename dir (.error e)]
  | unresolved {raw : String} {e : Thrown} {w₁ w₂ : σ} {asks : List Call}
      (read : source.reader filename dir w = (.ok raw, w₁))
      (tags : substitute ⟨names, source.environment⟩ raw w₁ = (.error e, w₂))
      (asked : ∀ c ∈ asks, c.IsAsk) :
      LoadCalls source filename decoder dir names w (.read filename dir (.ok raw) :: asks)
  | decoded {raw text : String} {w₁ w₂ : σ} {asks : List Call}
      (read : source.reader filename dir w = (.ok raw, w₁))
      (tags : substitute ⟨names, source.environment⟩ raw w₁ = (.ok text, w₂))
      (asked : ∀ c ∈ asks, c.IsAsk) :
      LoadCalls source filename decoder dir names w
        (.read filename dir (.ok raw) :: (asks ++ [.decode text (decoder text w₂).1]))

section asks

variable {asks : List Call} (h : ∀ c ∈ asks, c.IsAsk)

include h

theorem filterMap_of_asks {α : Type} {f : Call → Option α}
    (hf : ∀ key answer, f (.ask key answer) = none) : asks.filterMap f = [] := by
  rw [List.filterMap_eq_nil_iff]
  intro c hc
  obtain ⟨key, answer, rfl⟩ := h c hc
  exact hf key answer

theorem answers_of_asks (pending : List (String × Value)) (rest : List Call) :
    Call.answers pending (asks ++ rest) = Call.answers pending rest := by
  induction asks with
  | nil => rfl
  | cons c asks ih =>
    obtain ⟨key, answer, rfl⟩ := h c List.mem_cons_self
    exact ih fun c hc => h c (List.mem_cons_of_mem _ hc)

end asks

namespace LoadCalls

variable {source : Source σ} {filename : String} {decoder : Decoder σ} {dir : Option String}
  {names : Registry} {w w₁ w₂ : σ} {calls : List Call} {raw text : String} {e : Thrown}

/-- A load makes no calls but those of its three functions. -/
theorem filterMap_eq_nil {α : Type} {f : Call → Option α}
    (h : LoadCalls source filename decoder dir names w calls)
    (hr : ∀ filename dir answer, f (.read filename dir answer) = none)
    (ha : ∀ key answer, f (.ask key answer) = none)
    (hd : ∀ text answer, f (.decode text answer) = none) : calls.filterMap f = [] := by
  cases h with
  | unread read => rw [List.filterMap_cons_none (hr _ _ _), List.filterMap_nil]
  | unresolved read tags asked =>
    rw [List.filterMap_cons_none (hr _ _ _), filterMap_of_asks asked ha]
  | decoded read tags asked =>
    rw [List.filterMap_cons_none (hr _ _ _), List.filterMap_append, filterMap_of_asks asked ha,
      List.filterMap_cons_none (hd _ _)]
    rfl

theorem record? (h : LoadCalls source filename decoder dir names w calls) :
    calls.filterMap Call.record? = [] :=
  h.filterMap_eq_nil (fun _ _ _ => rfl) (fun _ _ => rfl) fun _ _ => rfl

theorem record?_append (h : LoadCalls source filename decoder dir names w calls)
    (rest : List Call) : (calls ++ rest).filterMap Call.record? = rest.filterMap Call.record? := by
  rw [List.filterMap_append, h.record?, List.nil_append]

/-- A load that calls its decoder yields the records that the decoder answers with. -/
theorem exists_yields_of_text? {m : Records}
    (h : LoadCalls source filename decoder dir names w calls)
    (ht : calls.filterMap Call.text? = [text]) (hd : ∀ w, decoder text w = (.ok m, w)) :
    ∃ w', LoadYields source filename decoder dir names w m w' := by
  cases h with
  | unread read => cases ht
  | unresolved read tags asked =>
    rw [List.filterMap_cons_none (by rfl), filterMap_of_asks asked fun _ _ => rfl] at ht
    cases ht
  | decoded read tags asked =>
    rw [List.filterMap_cons_none (by rfl), List.filterMap_append,
      filterMap_of_asks asked fun _ _ => rfl] at ht
    cases ht
    exact ⟨_, .decoded read tags (hd _)⟩

theorem text?_of_unresolved (h : LoadCalls source filename decoder dir names w calls)
    (read : source.reader filename dir w = (.ok raw, w₁))
    (tags : substitute ⟨names, source.environment⟩ raw w₁ = (.error e, w₂)) :
    calls.filterMap Call.text? = [] := by
  cases h with
  | unread read' => rfl
  | unresolved read' tags' asked =>
    rw [List.filterMap_cons_none (by rfl), filterMap_of_asks asked fun _ _ => rfl]
  | decoded read' tags' asked =>
    cases read.symm.trans read'
    cases tags.symm.trans tags'

/-- The decoder sees the text with its tags replaced, once, and nothing else. -/
theorem text?_of_resolved (h : LoadCalls source filename decoder dir names w calls)
    (read : source.reader filename dir w = (.ok raw, w₁))
    (tags : substitute ⟨names, source.environment⟩ raw w₁ = (.ok text, w₂)) :
    calls.filterMap Call.text? = [text] := by
  cases h with
  | unread read' => cases read.symm.trans read'
  | unresolved read' tags' asked =>
    cases read.symm.trans read'
    cases tags.symm.trans tags'
  | decoded read' tags' asked =>
    cases read.symm.trans read'
    cases tags.symm.trans tags'
    rw [List.filterMap_cons_none (by rfl), List.filterMap_append,
      filterMap_of_asks asked fun _ _ => rfl]
    rfl

/-- A load that fails inserts nothing. -/
theorem answers_of_fails {w' : σ} (h : LoadCalls source filename decoder dir names w calls)
    (hf : LoadFails source filename decoder dir names w w') (pending : List (String × Value))
    (rest : List Call) : Call.answers pending (calls ++ rest) = Call.answers pending rest := by
  cases h with
  | unread read => rfl
  | unresolved read tags asked => exact answers_of_asks asked pending rest
  | decoded read tags asked =>
    cases hf with
    | unread read' => cases read.symm.trans read'
    | unresolved read' tags' =>
      cases read.symm.trans read'
      cases tags.symm.trans tags'
    | undecoded read' tags' decode =>
      cases read.symm.trans read'
      cases tags.symm.trans tags'
      rw [decode, List.cons_append, List.append_assoc]
      exact answers_of_asks asked pending _

theorem inserted_of_fails {w' : σ} (h : LoadCalls source filename decoder dir names w calls)
    (hf : LoadFails source filename decoder dir names w w') (pending : List (String × Value))
    (rest : List Call) : Call.inserted pending (calls ++ rest) = Call.inserted pending rest := by
  rw [Call.inserted_eq, Call.inserted_eq, h.answers_of_fails hf]

theorem answers_of_yields {records : Records} {w' : σ}
    (h : LoadCalls source filename decoder dir names w calls)
    (hy : LoadYields source filename decoder dir names w records w')
    (pending : List (String × Value)) (rest : List Call) :
    Call.answers pending (calls ++ rest) = Call.answers records.entries rest := by
  cases hy with
  | decoded read tags decode =>
    cases h with
    | unread read' => cases read.symm.trans read'
    | unresolved read' tags' asked =>
      cases read.symm.trans read'
      cases tags.symm.trans tags'
    | decoded read' tags' asked =>
      cases read.symm.trans read'
      cases tags.symm.trans tags'
      rw [decode, List.cons_append, List.append_assoc]
      exact answers_of_asks asked pending _

theorem inserted_of_yields {records : Records} {w' : σ}
    (h : LoadCalls source filename decoder dir names w calls)
    (hy : LoadYields source filename decoder dir names w records w')
    (pending : List (String × Value)) (rest : List Call) :
    Call.inserted pending (calls ++ rest) = Call.inserted records.entries rest := by
  rw [Call.inserted_eq, Call.inserted_eq, h.answers_of_yields hy]

end LoadCalls

/-- A watched load is the load itself, with its calls written down. -/
theorem loadRecords_noting (source : Source σ) (filename : String) (decoder : Decoder σ)
    (dir : Option String) (names : Registry) (calls : List Call) (w : σ) :
    ∃ new, LoadCalls source filename decoder dir names w new ∧
      loadRecords source.noting filename decoder.noting dir names (calls, w) =
        ((loadRecords source filename decoder dir names w).1,
          (calls ++ new, (loadRecords source filename decoder dir names w).2)) := by
  rcases Action.run_cases (source.reader filename dir) w with ⟨raw, w₁, hr⟩ | ⟨e, w₁, hr⟩
  · have hr' := Source.reader_noting hr calls
    obtain ⟨asks, hasks, hs'⟩ := watches_substitute source names raw
      (calls ++ [.read filename dir (.ok raw)]) w₁
    rcases Action.run_cases (substitute ⟨names, source.environment⟩ raw) w₁ with
      ⟨text, w₂, hs⟩ | ⟨e, w₂, hs⟩
    · rw [hs] at hs'
      refine ⟨_, .decoded hr hs hasks, ?_⟩
      rw [loadRecords_of_resolved hr' hs', loadRecords_of_resolved hr hs]
      rcases Action.run_cases (decoder text) w₂ with ⟨records, w₃, hd⟩ | ⟨e, w₃, hd⟩
      · rw [decodeText_ok hd, decodeText_ok (Decoder.noting_run hd _), hd]
        simp
      · rw [decodeText_error hd, decodeText_error (Decoder.noting_run hd _), hd]
        simp
    · rw [hs] at hs'
      refine ⟨_, .unresolved hr hs hasks, ?_⟩
      rw [loadRecords_of_unresolved hr' hs', loadRecords_of_unresolved hr hs]
      simp
  · have hr' := Source.reader_noting hr calls
    exact ⟨_, .unread hr, by rw [loadRecords_of_unread hr, loadRecords_of_unread hr']⟩

end Seedbed
