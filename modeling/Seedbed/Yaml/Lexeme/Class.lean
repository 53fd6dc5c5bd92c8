/-! Classes of characters in YAML texts. Each is asked of the character at some place, which is
missing at the end of the text. -/

namespace Seedbed

namespace Yaml

def isEmpty : Option Char → Bool
  | none | some ' ' | some '\n' | some '\r' | some '\t' => true
  | some _ => false

/-- A character with a meaning of its own within brackets. -/
def isFlowMark : Option Char → Bool
  | some ',' | some '[' | some ']' | some '{' | some '}' => true
  | _ => false

def isBlankOrTab (c : Char) : Bool := c = ' ' || c = '\t'

def isAnchorChar (c : Char) : Bool := !isEmpty (some c) && !isFlowMark (some c)

/-- A character of a tag that needs no escape. -/
def isTagChar (c : Char) : Bool := c.isAlphanum || "-#;/?:@&=+$_.!~*'()".toList.contains c

/-- The text begins with `---` or `...` and then a separator. -/
def atDocumentMark : List Char → Bool
  | '-' :: '-' :: '-' :: rest => isEmpty rest.head?
  | '.' :: '.' :: '.' :: rest => isEmpty rest.head?
  | _ => false

def lineBreak : List Char → List Char
  | '\n' :: _ => ['\n']
  | '\r' :: '\n' :: _ => ['\r', '\n']
  | _ => []

def restOfLine : List Char → List Char
  | [] => []
  | c :: rest => if lineBreak (c :: rest) = [] then c :: restOfLine rest else []

end Yaml

end Seedbed
