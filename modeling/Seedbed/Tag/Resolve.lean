import Seedbed.Tag
import Seedbed.Action
import Seedbed.Registry
/-! What a tag stands for: `ENV` an environment variable, or else the default; `REF` the identifier
registered under a label, whatever the default. -/

namespace Seedbed

/-- Reads an environment variable, which may be unset. -/
abbrev Environment (σ : Type) := String → Action σ (Option String)

structure Scope (σ : Type) where
  names : Registry
  environment : Environment σ

namespace Environment

/-- The environment that holds the given variables and no others. -/
def ofVariables {σ : Type} (values : List (String × String)) : Environment σ :=
  fun key => pure (values.lookup key)

end Environment

namespace Tag

variable {σ : Type}

/-- The text that a tag stands for. -/
def resolve (scope : Scope σ) (tag : Tag) : Action σ String := do
  match tag.directive with
  | "ENV" =>
    match (← scope.environment tag.key) <|> tag.fallback with
    | some text => return text
    | none => .fail (.missingVariable tag.key)
  | "REF" =>
    match scope.names.lookup tag.key with
    | some text => return text
    | none => .fail (.unresolvedReference tag.key)
  | directive => .fail (.unsupportedDirective directive tag.key)

end Tag

end Seedbed
