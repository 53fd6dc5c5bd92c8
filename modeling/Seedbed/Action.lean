import Seedbed.Fault
/-! Steps that use the functions of a caller. A step changes a state of the caller's own, and it
answers or throws; what it changed before it throws stays changed. -/

namespace Seedbed

abbrev Action (σ α : Type) := ExceptT Thrown (StateM σ) α

namespace Action

variable {S σ α : Type}

def fail (f : Fault) : Action σ α := throw (.fault f)

def ofExcept (toThrown : α → Thrown) {β : Type} : Except α β → Action σ β
  | .ok b => pure b
  | .error a => throw (toThrown a)

/-- A step on a state beside the caller's own. -/
def beside (a : Action σ α) : Action (S × σ) α :=
  fun (s, w) => let (r, w) := a w; (r, (s, w))

def change (f : S → S) : Action (S × σ) Unit := modify fun (s, w) => (f s, w)

def state : Action (S × σ) S := return (← get).1

def outcome (a : Action σ α) : Action σ (Except Thrown α) :=
  fun w => let (r, w) := a.run.run w; (.ok r, w)

end Action

end Seedbed
