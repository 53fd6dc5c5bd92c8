import Seedbed.Yaml.Layout.Build
import Seedbed.Yaml.Lexeme.Scan
import Seedbed.Yaml.Node.OfLayout
/-! The document that a YAML text holds. A text holds at most one. -/

namespace Seedbed

namespace Yaml

namespace Document

structure Reading where
  directives : Directives := {}
  /-- A directive stands before, and no document since. -/
  afterDirective : Bool := false
  root : Option Node := none
  version : Version := .v1_2

/-- A collection may not begin in the line of `---`. -/
def mayBegin (props : Props) (value : Option Layout) : Bool :=
  props.found.isNone || props.hasNewline || !value.any Layout.isBlockCollection

/-- The node of a document. Where it has no content, it is the empty scalar. -/
def root? (directives : Directives) (offset : Nat) (start : List Token) (value : Option Layout)
    (trail : List Token) : Option (Node × Props) := do
  let props ← Props.read? { indicator := .documentStart, next := .of value trail, offset, indent := 0,
                            atNewline := true } start
  if !mayBegin props value then none
  let (node, stop) ←
    match value with
    | some v => Node.ofLayout? directives true props v
    | none => Node.empty? directives props props.stop start
  let _ ← trailStop? stop false trail
  return (node, props)

/-- Reads one part of the stream. -/
def Reading.add? (r : Reading) : Part → Option Reading
  | .directive chars =>
    (r.directives.add? chars).map fun directives => { r with directives, afterDirective := true }
  | .document offset start value trail => do
    if r.root.isSome then none
    let (node, props) ← root? r.directives offset start value trail
    if r.afterDirective && props.found.isNone then none
    return { r with root := some node, version := r.directives.version, afterDirective := false }
  | .documentEnd trail =>
    if r.root.isNone then none else (trailStop? 0 true trail).map fun _ => r

/-- What is read of a text with at most one document. Malformed texts have no answer. -/
def read? (text : String) : Option Reading := do
  let parts ← parts? (← lexemes? text.toList)
  let r ← parts.foldlM Reading.add? {}
  if r.root.isNone && r.afterDirective then none else return r

end Document

/-- The root of the document in a text, and `none` inside where there is no document. -/
def document? (text : String) : Option (Option Node) :=
  (Document.read? text).map (·.root)

/-- The version of YAML that the document in a text is written in. -/
def version? (text : String) : Option Version :=
  (Document.read? text).map (·.version)

end Yaml

end Seedbed
