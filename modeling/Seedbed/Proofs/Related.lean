import Seedbed.Proofs.Load
import Seedbed.Proofs.Tag.Split

/-! Relations between steps that are kept when steps are put together. The replacing of tags, and
with it a load, is put together of calls of the caller's functions, so what relates these relates
the loads. -/

namespace Seedbed

variable {σ τ : Type}

/-- The relation holds between steps that answer the same and leave the state as it is, and is kept
when steps follow each other and when their errors are changed. -/
structure Action.Congruence (Rel : ∀ {α : Type}, Action σ α → Action τ α → Prop) : Prop where
  run : ∀ {α : Type} (r : Except Thrown α), Rel (fun w => (r, w)) fun v => (r, v)
  bind : ∀ {α β : Type} {a : Action σ α} {b : Action τ α} {f : α → Action σ β}
    {g : α → Action τ β}, Rel a b → (∀ x, Rel (f x) (g x)) → Rel (a >>= f) (b >>= g)
  adapt : ∀ {α : Type} {a : Action σ α} {b : Action τ α} (f : Thrown → Thrown), Rel a b →
    Rel (ExceptT.adapt f a : Action σ α) (ExceptT.adapt f b)

namespace Action.Congruence

variable {Rel : ∀ {α : Type}, Action σ α → Action τ α → Prop} (h : Congruence Rel)
  {a : Scope σ} {b : Scope τ}

include h

theorem resolve {tag : Tag}
    (henv : tag.directive = "ENV" → Rel (a.environment tag.key) (b.environment tag.key))
    (href : tag.directive = "REF" → a.names.lookup tag.key = b.names.lookup tag.key) :
    Rel (tag.resolve a) (tag.resolve b) := by
  by_cases he : tag.directive = "ENV"
  · rw [Tag.resolve_env _ he, Tag.resolve_env _ he]
    refine h.bind (henv he) fun value => ?_
    cases value <|> tag.fallback with
    | some text => exact h.run (.ok text)
    | none => exact h.run (.error _)
  · by_cases hr : tag.directive = "REF"
    · rw [Tag.resolve_ref _ hr, Tag.resolve_ref _ hr, href hr]
      cases b.names.lookup tag.key with
      | some text => exact h.run (.ok text)
      | none => exact h.run (.error _)
    · rw [Tag.resolve_other _ he hr, Tag.resolve_other _ he hr]
      exact h.run (.error _)

theorem fillHoles {holes : List (List Char × Tag)}
    (hholes : ∀ tag ∈ holes.map Prod.snd, Rel (tag.resolve a) (tag.resolve b)) :
    Rel (Template.fillHoles a holes) (Template.fillHoles b holes) := by
  induction holes with
  | nil => exact h.run (.ok [])
  | cons hole holes ih =>
    rw [List.map_cons, List.forall_mem_cons] at hholes
    exact h.bind hholes.1 fun text => h.bind (ih hholes.2) fun rest => h.run (.ok _)

theorem substitute {text : String}
    (htags : ∀ tag ∈ (Template.ofText text).holes.map Prod.snd,
      Rel (tag.resolve a) (tag.resolve b)) :
    Rel (Seedbed.substitute a text) (Seedbed.substitute b text) :=
  h.bind (h.fillHoles htags) fun _ => h.run (.ok _)

theorem loadRecords {source : Source σ} {source' : Source τ} {filename : String}
    {decoder : Decoder σ} {decoder' : Decoder τ} {dir : Option String} {names : Registry}
    (hread : Rel (source.reader filename dir) (source'.reader filename dir))
    (henv : ∀ key, Rel (source.environment key) (source'.environment key))
    (hdecode : ∀ text, Rel (decoder text) (decoder' text)) :
    Rel (Seedbed.loadRecords source filename decoder dir names)
      (Seedbed.loadRecords source' filename decoder' dir names) := by
  have htags (raw : String) : Rel (Seedbed.substitute ⟨names, source.environment⟩ raw)
      (Seedbed.substitute ⟨names, source'.environment⟩ raw) :=
    h.substitute fun tag _ => h.resolve (fun _ => henv tag.key) fun _ => rfl
  exact h.bind (h.adapt _ hread) fun raw =>
    h.bind (h.adapt _ (htags raw)) fun text => h.adapt _ (hdecode text)

end Action.Congruence

end Seedbed
