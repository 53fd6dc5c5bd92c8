import Mathlib.Data.List.Infix
import Seedbed.Fault

/-! Faults that take on context any number of times. However often that happens, a fault is made
anew from the same code, message, cause and flag, and under each key stands the value of the
innermost context that has one: the fault's own, or else that of the first context that it took on.
-/

namespace Seedbed

namespace Fault

/-! ### Contexts -/

namespace Context

inductive Key
  | filename
  | path
  | label
  | key
  | directive
  deriving DecidableEq, Repr

/-- The value under a key. A context holds the keys that have one. -/
def get? (c : Context) : Key → Option String
  | .filename => c.filename
  | .path => c.path
  | .label => c.label
  | .key => c.key
  | .directive => c.directive

theorem get?_orElse (c d : Context) (k : Key) : (c.orElse d).get? k = (c.get? k).or (d.get? k) := by
  cases k with
  | filename | path | label | key | directive => exact Option.orElse_eq_or

theorem get?_foldl_orElse (c : Context) (cs : List Context) (k : Key) :
    (cs.foldl orElse c).get? k = (c.get? k).or (cs.findSome? (·.get? k)) := by
  induction cs generalizing c with
  | nil => rw [List.foldl_nil, List.findSome?_nil, Option.or_none]
  | cons d cs ih =>
    rw [List.foldl_cons, ih, get?_orElse, Option.or_assoc, List.findSome?_cons]
    congr 1
    cases d.get? k with
    | none => rfl
    | some v => rfl

end Context

/-! ### Faults made anew -/

def ofParts (code : Code) (message : String) (context : Context) (retryable : Bool)
    (cause : Thrown) : Fault :=
  withCause { code, message, context, retryable } cause

/-- A fault that takes on contexts one after the other. -/
def wrapped (f : Fault) (cs : List Context) : Fault := cs.foldl FaultWith.withContext f

/-- The fault, and what it is after each context that it takes on. -/
def chain (f : Fault) : List Context → List Fault
  | [] => [f]
  | c :: cs => f :: chain (f.withContext c) cs

section parts

variable (code : Code) (message : String) (context : Context) (retryable : Bool) (cause : Thrown)

theorem ofParts_fields : (ofParts code message context retryable cause).code = code ∧
    (ofParts code message context retryable cause).message = message ∧
    (ofParts code message context retryable cause).context = context ∧
    (ofParts code message context retryable cause).retryable = retryable := by
  unfold ofParts withCause
  split <;> exact ⟨rfl, rfl, rfl, rfl⟩

/-- Whatever is not absent is a cause, also null, zero and an empty text. -/
theorem ofParts_cause_eq_some_iff (x : Thrown) :
    (ofParts code message context retryable cause).cause = some x ↔
      x = cause ∧ x ≠ .value .absent := by
  unfold ofParts withCause
  split
  · refine ⟨nofun, ?_⟩
    rintro ⟨rfl, hx⟩
    exact absurd rfl hx
  · rename_i hc
    constructor
    · rintro ⟨⟩
      exact ⟨rfl, hc⟩
    · rintro ⟨rfl, -⟩
      rfl

theorem withContext_ofParts (c : Context) :
    (ofParts code message context retryable cause).withContext c =
      ofParts code message (context.orElse c) retryable cause := by
  unfold ofParts withCause
  split <;> rfl

theorem wrapped_ofParts (cs : List Context) :
    (ofParts code message context retryable cause).wrapped cs =
      ofParts code message (cs.foldl Context.orElse context) retryable cause := by
  induction cs generalizing context with
  | nil => rfl
  | cons c cs ih => rw [wrapped, List.foldl_cons, withContext_ofParts, ← wrapped, ih, List.foldl_cons]

end parts

/-! ### Contexts taken on -/

/-- One fault is another one that took on these contexts. -/
structure TakesOn (f : Fault) (cs : List Context) (g : Fault) : Prop where
  code : g.code = f.code
  message : g.message = f.message
  retryable : g.retryable = f.retryable
  cause : g.cause = f.cause
  held : ∀ k, (g.context.get? k).isSome ↔
    (f.context.get? k).isSome ∨ ∃ c ∈ cs, (c.get? k).isSome
  own : ∀ k v, f.context.get? k = some v → g.context.get? k = some v
  first : ∀ k v before c after, f.context.get? k = none → cs = before ++ c :: after →
    (∀ d ∈ before, d.get? k = none) → c.get? k = some v → g.context.get? k = some v

variable (f : Fault) (cs : List Context)

theorem wrapped_parts : (f.wrapped cs).code = f.code ∧ (f.wrapped cs).message = f.message ∧
    (f.wrapped cs).retryable = f.retryable ∧ (f.wrapped cs).cause = f.cause ∧
    (f.wrapped cs).context = cs.foldl Context.orElse f.context := by
  induction cs generalizing f with
  | nil => exact ⟨rfl, rfl, rfl, rfl, rfl⟩
  | cons c cs ih => exact ih (f.withContext c)

theorem takesOn_wrapped : TakesOn f cs (f.wrapped cs) := by
  obtain ⟨hcode, hmessage, hretryable, hcause, hcontext⟩ := wrapped_parts f cs
  have hget : ∀ k, (f.wrapped cs).context.get? k =
      (f.context.get? k).or (cs.findSome? (·.get? k)) := by
    intro k
    rw [hcontext, Context.get?_foldl_orElse]
  refine ⟨hcode, hmessage, hretryable, hcause, fun k => ?_, fun k v hv => ?_, ?_⟩
  · rw [hget, Option.isSome_or, Bool.or_eq_true, List.findSome?_isSome_iff]
  · rw [hget, hv, Option.some_or]
  · rintro k v before c after hnone rfl hbefore hc
    rw [hget, hnone, Option.none_or, List.findSome?_append, List.findSome?_eq_none_iff.2 hbefore,
      Option.none_or, List.findSome?_cons, hc]

theorem getElem?_chain {i : Nat} (hi : i ≤ cs.length) :
    (f.chain cs)[i]? = some (f.wrapped (cs.take i)) := by
  induction cs generalizing f i with
  | nil =>
    obtain rfl := Nat.le_zero.1 hi
    rfl
  | cons c cs ih =>
    cases i with
    | zero => rfl
    | succ i => exact ih (f.withContext c) (Nat.le_of_succ_le_succ hi)

theorem length_chain : (f.chain cs).length = cs.length + 1 := by
  induction cs generalizing f with
  | nil => rfl
  | cons c cs ih => exact congrArg (· + 1) (ih (f.withContext c))

/-- What takes on more context later does not change. -/
theorem chain_prefix (later : List Context) : f.chain cs <+: f.chain (cs ++ later) := by
  induction cs generalizing f with
  | nil =>
    cases later with
    | nil => exact List.prefix_refl _
    | cons c later => exact List.prefix_append [f] _
  | cons c cs ih => exact List.cons_prefix_cons.2 ⟨rfl, ih (f.withContext c)⟩

/-- Whatever a fault is made of and whichever contexts it takes on: each time it is made anew with
the same code, message, flag and cause, and it has a cause just if one was given. Its context has
what it had at first, and else what the first context that knows more has. The faults on the way
keep what they have. -/
theorem innermost_context_wins (code : Code) (message : String) (context : Context)
    (retryable : Bool) (cause : Thrown) (cs : List Context) :
    let f := ofParts code message context retryable cause
    (f.code = code ∧ f.message = message ∧ f.context = context ∧ f.retryable = retryable ∧
      ∀ x, f.cause = some x ↔ x = cause ∧ x ≠ .value .absent) ∧
    f.wrapped cs = ofParts code message (cs.foldl Context.orElse context) retryable cause ∧
    TakesOn f cs (f.wrapped cs) ∧
    (f.chain cs).length = cs.length + 1 ∧
    (∀ i ≤ cs.length, (f.chain cs)[i]? = some (f.wrapped (cs.take i)) ∧
      TakesOn f (cs.take i) (f.wrapped (cs.take i))) ∧
    ∀ later, f.chain cs <+: f.chain (cs ++ later) := by
  intro f
  obtain ⟨hcode, hmessage, hcontext, hretryable⟩ :=
    ofParts_fields code message context retryable cause
  refine ⟨⟨hcode, hmessage, hcontext, hretryable, ?_⟩, ?_, takesOn_wrapped f cs,
    length_chain f cs, ?_, chain_prefix f cs⟩
  · exact ofParts_cause_eq_some_iff code message context retryable cause
  · exact wrapped_ofParts code message context retryable cause cs
  · intro i hi
    exact ⟨getElem?_chain f cs hi, takesOn_wrapped f (cs.take i)⟩

/-- The label is the fault's own, the file that of the first context, and null is a cause. -/
example :
    let f := (ofParts .insertFailed "m" { label := some "a" } false (.value .null)).wrapped
      [{ filename := some "f", label := some "b" }, { filename := some "g", path := some "p" }]
    f.context = { filename := some "f", path := some "p", label := some "a" } ∧
      f.cause.isSome :=
  ⟨rfl, rfl⟩

end Fault

end Seedbed
