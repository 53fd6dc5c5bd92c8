import Seedbed.Proofs.Calls

/-! Two watched runs side by side. While the callers of both are asked the same and answer alike,
both runs go on alike, so they ask the same again. An identifier that an insert answers with may be
another one in each. -/

namespace Seedbed

/-! ### Calls that are answered alike -/

namespace Call

inductive Question
  | read (filename : String) (baseDir : Option String)
  | ask (key : String)
  | decode (text : String)
  | insert (record : Value)

def question : Call → Question
  | read filename baseDir _ => .read filename baseDir
  | ask key _ => .ask key
  | decode text _ => .decode text
  | insert record _ => .insert record

/-- The call without the identifier that an insert answered with. -/
def blurred : Call → Call
  | insert record (.ok _) => insert record (.ok default)
  | c => c

/-- Where the calls at one place of both lists ask the same, they have the same answer but for an
identifier. -/
def AnsweredAlike (calls calls' : List Call) : Prop :=
  ∀ (n : Nat) c c', calls[n]? = some c → calls'[n]? = some c' → c.question = c'.question →
    c.blurred = c'.blurred

/-- The lists are the same but for identifiers. -/
def Agree (a b : List Call) : Prop := a.map blurred = b.map blurred

theorem Agree.answeredAlike {a b : List Call} (h : Agree a b) : AnsweredAlike a b := by
  intro n c c' hc hc' _
  have hn := congrArg (·[n]?) h
  simpa [hc, hc'] using hn

/-- The next calls of lists that agree are answered alike if they ask the same. -/
theorem AnsweredAlike.next {calls calls' a b : List Call} {c c' : Call}
    (h : AnsweredAlike calls calls') (ha : a ++ [c] <+: calls) (hb : b ++ [c'] <+: calls')
    (hab : Agree a b) (hq : c.question = c'.question) :
    c.blurred = c'.blurred ∧ Agree (a ++ [c]) (b ++ [c']) := by
  have hlength : a.length = b.length := by simpa using congrArg List.length hab
  have hc : calls[a.length]? = some c := by
    obtain ⟨rest, rfl⟩ := ha
    simp
  have hc' : calls'[a.length]? = some c' := by
    obtain ⟨rest, rfl⟩ := hb
    simp [hlength]
  have hblurred := h a.length c c' hc hc' hq
  exact ⟨hblurred, by rw [Agree, List.map_append, List.map_append, hab, List.map_singleton,
    List.map_singleton, hblurred]⟩

/-- An insert that is answered alike answers in both lists or throws the same error in both. -/
theorem insert_alike {record : Value} {r r' : Except Thrown Identifier}
    (h : (insert record r).blurred = (insert record r').blurred) :
    (∃ id id', r = .ok id ∧ r' = .ok id') ∨ ∃ e, r = .error e ∧ r' = .error e := by
  cases r with
  | ok id =>
    cases r' with
    | ok id' => exact .inl ⟨id, id', rfl, rfl⟩
    | error e' => cases h
  | error e =>
    cases r' with
    | ok id' => cases h
    | error e' =>
      cases h
      exact .inr ⟨e, rfl, rfl⟩

end Call

/-! ### Runs -/

namespace Action

variable {σ τ α β : Type}

/-- The step adds to the list of calls and takes nothing back. -/
def Writes (a : Action (List Call × σ) α) : Prop := ∀ calls w, calls <+: (a (calls, w)).2.1

theorem Watches.writes {P : Call → Prop} {a : Action (List Call × σ) α} {b : Action σ α}
    (h : Watches P a b) : a.Writes := by
  intro calls w
  obtain ⟨new, -, ha⟩ := h calls w
  rw [ha]
  exact List.prefix_append calls new

theorem writes_noting (call : Except Thrown α → Call) (a : Action σ α) : (a.noting call).Writes :=
  fun calls _ => List.prefix_append calls _

theorem mem_of_noting_ok {call : Except Thrown α → Call} {a : Action σ α} {x : α}
    {st st' : List Call × σ} (h : a.noting call st = (.ok x, st')) : call (.ok x) ∈ st'.1 := by
  obtain ⟨calls, w⟩ := st
  have hnoted : ((a w).1, (calls ++ [call (a w).1], (a w).2)) = (.ok x, st') := h
  rw [Prod.mk.injEq] at hnoted
  obtain ⟨hx, rfl⟩ := hnoted
  rw [hx]
  exact List.mem_append_right calls List.mem_cons_self

theorem writes_run (r : Except Thrown α) : Writes fun st : List Call × σ => (r, st) :=
  fun calls _ => List.prefix_refl calls

theorem Writes.bind {a : Action (List Call × σ) α} {f : α → Action (List Call × σ) β}
    (h : a.Writes) (hf : ∀ x, (f x).Writes) : (a >>= f).Writes := by
  intro calls w
  have hcalls := h calls w
  rcases run_cases a (calls, w) with ⟨x, ⟨calls₁, w₁⟩, ha⟩ | ⟨e, ⟨calls₁, w₁⟩, ha⟩
  · rw [ha] at hcalls
    rw [bind_ok ha]
    exact hcalls.trans (hf x calls₁ w₁)
  · rw [ha] at hcalls
    rwa [bind_error ha]

theorem Writes.adapt {a : Action (List Call × σ) α} (h : a.Writes) (f : Thrown → Thrown) :
    Writes (ExceptT.adapt f a : Action (List Call × σ) α) := h

section mirrored

variable {calls calls' : List Call} {a : Action (List Call × σ) α} {b : Action (List Call × τ) α}
  {f : α → Action (List Call × σ) β} {g : α → Action (List Call × τ) β}
  {st : List Call × σ} {st' : List Call × τ}

/-- From these states the steps, if all they write down is the beginning of these lists, answer the
same and leave lists that agree. -/
def MirroredAt (calls calls' : List Call) (a : Action (List Call × σ) α)
    (b : Action (List Call × τ) α) (st : List Call × σ) (st' : List Call × τ) : Prop :=
  (a st).2.1 <+: calls → (b st').2.1 <+: calls' → Call.Agree st.1 st'.1 →
    (a st).1 = (b st').1 ∧ Call.Agree (a st).2.1 (b st').2.1

theorem MirroredAt.bind (h : MirroredAt calls calls' a b st st') (hf : ∀ x, (f x).Writes)
    (hg : ∀ x, (g x).Writes)
    (hnext : ∀ x st₁ st₁', a st = (.ok x, st₁) → st₁.1 <+: calls →
      MirroredAt calls calls' (f x) (g x) st₁ st₁') :
    MirroredAt calls calls' (a >>= f) (b >>= g) st st' := by
  intro hcalls hcalls' hagree
  -- what the first steps write down is the beginning of what both write down
  rcases run_cases a st with ⟨x, st₁, ha⟩ | ⟨e, st₁, ha⟩ <;>
    rcases run_cases b st' with ⟨x', st₁', hb⟩ | ⟨e', st₁', hb⟩ <;>
    simp only [MirroredAt, ha, hb] at h
  · rw [bind_ok ha] at hcalls ⊢
    rw [bind_ok hb] at hcalls' ⊢
    have hfirst := (hf x st₁.1 st₁.2).trans hcalls
    obtain ⟨hx, hagree₁⟩ := h hfirst ((hg x' st₁'.1 st₁'.2).trans hcalls') hagree
    cases hx
    exact hnext x st₁ st₁' ha hfirst hcalls hcalls' hagree₁
  · rw [bind_ok ha] at hcalls
    rw [bind_error hb] at hcalls'
    cases (h ((hf x st₁.1 st₁.2).trans hcalls) hcalls' hagree).1
  · rw [bind_error ha] at hcalls
    rw [bind_ok hb] at hcalls'
    cases (h hcalls ((hg x' st₁'.1 st₁'.2).trans hcalls') hagree).1
  · rw [bind_error ha] at hcalls ⊢
    rw [bind_error hb] at hcalls' ⊢
    obtain ⟨he, hagree₁⟩ := h hcalls hcalls' hagree
    cases he
    exact ⟨rfl, hagree₁⟩

structure Mirrored (calls calls' : List Call) (a : Action (List Call × σ) α)
    (b : Action (List Call × τ) α) : Prop where
  writes : a.Writes
  writes' : b.Writes
  alike : ∀ st st', MirroredAt calls calls' a b st st'

theorem congruence_mirrored (calls calls' : List Call) :
    Congruence fun {α : Type} (a : Action (List Call × σ) α) (b : Action (List Call × τ) α) =>
      Mirrored calls calls' a b where
  run r := ⟨writes_run r, writes_run r, fun _ _ _ _ hagree => ⟨rfl, hagree⟩⟩
  bind h hf := by
    have hwrites x := (hf x).writes
    have hwrites' x := (hf x).writes'
    exact ⟨h.writes.bind hwrites, h.writes'.bind hwrites', fun st st' =>
      (h.alike st st').bind hwrites hwrites' fun x st₁ st₁' _ _ => (hf x).alike st₁ st₁'⟩
  adapt f h := by
    refine ⟨h.writes.adapt f, h.writes'.adapt f, fun st st' hcalls hcalls' hagree => ?_⟩
    obtain ⟨hr, hagree'⟩ := h.alike st st' hcalls hcalls' hagree
    rw [adapt_run, adapt_run, hr]
    exact ⟨rfl, hagree'⟩

/-- Functions of the caller that are asked the same go alike, unless they insert. -/
theorem mirrored_noting (h : Call.AnsweredAlike calls calls') {call : Except Thrown α → Call}
    (hq : ∀ r r', (call r).question = (call r').question)
    (hinj : ∀ r r', (call r).blurred = (call r').blurred → r = r') (a : Action σ α)
    (b : Action τ α) : Mirrored calls calls' (a.noting call) (b.noting call) where
  writes := writes_noting call a
  writes' := writes_noting call b
  alike st st' hcalls hcalls' hagree := by
    obtain ⟨hblurred, hnext⟩ := h.next hcalls hcalls' hagree (hq _ _)
    exact ⟨hinj _ _ hblurred, hnext⟩

end mirrored

end Action

/-! ### Loads -/

def WithoutReferences (text : String) : Prop :=
  ∀ t : Split, t.text = text.toList → t.Clear → ∀ tag ∈ t.tags, tag.directive ≠ "REF"

theorem withoutReferences_iff {text : String} : WithoutReferences text ↔
    ∀ tag ∈ (Template.ofText text).holes.map Prod.snd, tag.directive ≠ "REF" := by
  constructor
  · intro h
    obtain ⟨t, ht, hall⟩ := Split.exists_allFree text.toList
    have hc : t.Clear := (Split.clear_iff t).2 hall
    rw [← Split.tags_eq ht hc]
    exact h t ht hc
  · intro h t ht hc
    rwa [Split.tags_eq ht hc]

section loads

variable {σ τ : Type} {calls calls' : List Call} (h : Call.AnsweredAlike calls calls')
  (source : Source σ) (source' : Source τ) (names names' : Registry)

include h

theorem Source.mirrored_reader (filename : String) (dir : Option String) :
    Action.Mirrored calls calls' (source.noting.reader filename dir)
      (source'.noting.reader filename dir) :=
  Action.mirrored_noting h (fun _ _ => rfl) (fun _ _ hr => by cases hr; rfl) _ _

theorem Source.mirrored_environment (key : String) :
    Action.Mirrored calls calls' (source.noting.environment key)
      (source'.noting.environment key) :=
  Action.mirrored_noting h (fun _ _ => rfl) (fun _ _ hr => by cases hr; rfl) _ _

theorem Decoder.mirrored (decoder : Decoder σ) (decoder' : Decoder τ) (text : String) :
    Action.Mirrored calls calls' (decoder.noting text) (decoder'.noting text) :=
  Action.mirrored_noting h (fun _ _ => rfl) (fun _ _ hr => by cases hr; rfl) _ _

theorem mirrored_substitute {text : String} (href : WithoutReferences text) :
    Action.Mirrored calls calls' (substitute ⟨names, source.noting.environment⟩ text)
      (substitute ⟨names', source'.noting.environment⟩ text) := by
  have hrel := Action.congruence_mirrored (σ := σ) (τ := τ) calls calls'
  refine hrel.substitute fun tag hmem => hrel.resolve (fun _ => ?_) fun hdirective => ?_
  · exact source.mirrored_environment h source' tag.key
  · exact absurd hdirective (withoutReferences_iff.1 href tag hmem)

/-- Files without references load alike whatever is registered. -/
theorem mirrored_loadRecords
    (hfiles : ∀ filename dir raw, Call.read filename dir (.ok raw) ∈ calls → WithoutReferences raw)
    (filename : String) (decoder : Decoder σ) (decoder' : Decoder τ) (dir : Option String)
    (st : List Call × σ) (st' : List Call × τ) :
    Action.MirroredAt calls calls'
      (loadRecords source.noting filename decoder.noting dir names)
      (loadRecords source'.noting filename decoder'.noting dir names') st st' := by
  have hrel := Action.congruence_mirrored (σ := σ) (τ := τ) calls calls'
  have hread := hrel.adapt (Load.leaving filename (.notOpened filename (Load.inFile filename)))
    (source.mirrored_reader h source' filename dir)
  have hdecode (text : String) :=
    hrel.adapt (Load.leaving filename (.undecodable filename)) (decoder.mirrored h decoder' text)
  refine (hread.alike st st').bind (fun raw => ?_) (fun raw => ?_)
    fun raw st₁ st₁' hraw hst₁ => ?_
  · exact ((watches_substitute source names raw).writes.adapt _).bind fun text =>
      (hdecode text).writes
  · exact ((watches_substitute source' names' raw).writes.adapt _).bind fun text =>
      (hdecode text).writes'
  · -- the text stands in the list of calls, so it is one without references
    have hmem := Action.mem_of_noting_ok (Action.of_adapt_ok hraw)
    have href : WithoutReferences raw := hfiles filename dir raw (hst₁.subset hmem)
    have htags := mirrored_substitute h source source' names names' href
    exact (hrel.bind (hrel.adapt (Load.leavingTags filename) htags) hdecode).alike st₁ st₁'

end loads

end Seedbed
