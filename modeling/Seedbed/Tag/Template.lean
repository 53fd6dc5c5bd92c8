import Seedbed.Tag.Occurrence
import Seedbed.Tag.Resolve
/-! Texts with tags in them. A text is cut at its leftmost tag, then the text after that tag, and
so on; each tag is replaced by the text it stands for, and what was put in is not looked at again.
The first tag that can not be resolved ends it. -/

namespace Seedbed

/-- A text cut at its tags: what stands before each of them, and what stands after the last. -/
structure Template where
  holes : List (List Char × Tag)
  tail : List Char

namespace Template

def cut (cs : List Char) : Template :=
  match _h : Tag.find? cs with
  | none => ⟨[], cs⟩
  | some o =>
    let t := cut o.rest
    ⟨(o.lead, o.tag) :: t.holes, t.tail⟩
termination_by cs.length
decreasing_by exact Tag.find?_rest_length _h

def ofText (text : String) : Template := cut text.toList

variable {σ : Type}

def fillHoles (scope : Scope σ) : List (List Char × Tag) → Action σ (List Char)
  | [] => pure []
  | (lead, tag) :: holes => do
    let text ← tag.resolve scope
    let rest ← fillHoles scope holes
    return lead ++ text.toList ++ rest

def fill (scope : Scope σ) (t : Template) : Action σ String := do
  return .ofList ((← fillHoles scope t.holes) ++ t.tail)

end Template

/-- The text with each of its tags replaced by what it stands for. -/
def substitute {σ : Type} (scope : Scope σ) (text : String) : Action σ String :=
  (Template.ofText text).fill scope

end Seedbed
