import Seedbed.Circle
/-! Errors that are not faults of a fixture file themselves but can cause one: what the system,
the decoding of YAML, a caller's function or a value of the wrong shape gives rise to. -/

namespace Seedbed

inductive Failure
  | plain (message : String)
  | noSuchFile (path : String)
  | isDirectory (path : String)
  | notDirectory (path : String)
  | nulInPath (path : String)
  | malformedYaml
  | unresolvedAlias (name : String)
  | excessiveAliases
  /-- A map that is to be merged into a part of itself. -/
  | endlessMerge
  /-- A member of a set that is to be merged, but is no list and no text. -/
  | notIterable
  | schemaMismatch
  | integerInJson
  | circularJson (circle : Circle)
  | noFields
  | fieldOfNothing (value field : String)
  | unknownLevel (name : String)
  deriving DecidableEq, Repr

namespace Failure

def kind : Failure → String
  | plain _ | noSuchFile _ | isDirectory _ | notDirectory _ | unknownLevel _ => "Error"
  | nulInPath _ | integerInJson | circularJson _ | notIterable | noFields | fieldOfNothing .. =>
    "TypeError"
  | endlessMerge => "RangeError"
  | malformedYaml => "YAMLParseError"
  | unresolvedAlias _ | excessiveAliases => "ReferenceError"
  | schemaMismatch => "ZodError"

def message : Failure → String
  | plain m => m
  | noSuchFile p => "ENOENT: no such file or directory, open '" ++ p ++ "'"
  | isDirectory _ => "EISDIR: illegal operation on a directory, read"
  | notDirectory p => "ENOTDIR: not a directory, open '" ++ p ++ "'"
  | nulInPath _ => "The argument 'path' must be a string, Uint8Array, or URL without null bytes."
  | malformedYaml => "the text is not well-formed"
  | unresolvedAlias n => s!"Unresolved alias (the anchor must be set before the alias): {n}"
  | excessiveAliases => "Excessive alias count indicates a resource exhaustion attack"
  | endlessMerge => "Maximum call stack size exceeded"
  | notIterable => ".for is not iterable"
  | schemaMismatch => "the value does not meet its schema"
  | integerInJson => "Do not know how to serialize a BigInt"
  | circularJson circle => "Converting circular structure to JSON" ++ circle.text
  | noFields => "Cannot convert undefined or null to object"
  | fieldOfNothing v f => s!"Cannot read properties of {v} (reading '{f}')"
  | unknownLevel n => s!"default level:{n} must be included in custom levels"

end Failure

end Seedbed
