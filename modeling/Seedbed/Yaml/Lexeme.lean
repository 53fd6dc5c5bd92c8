import Seedbed.Text.Units
/-! The smallest parts of a YAML text. Put together they are the text again; of what kind one is can
be told from its own characters, except that the text of a plain or a block scalar may be any. -/

namespace Seedbed

namespace Yaml

inductive Bracket
  | brace
  | square
  deriving DecidableEq, Repr

inductive Quote
  | single
  | double
  deriving DecidableEq, Repr

namespace Lexeme

inductive Kind
  /-- A document begins. It has no characters. -/
  | document
  /-- Brackets end before they are closed. It has no characters. -/
  | flowEnd
  | byteOrderMark
  /-- `---` -/
  | documentStart
  /-- `...` -/
  | documentEnd
  | newline
  | dash
  | question
  | colon
  | opening (b : Bracket)
  | closing (b : Bracket)
  | comma
  | blank
  | comment
  | directive
  | alias
  | anchor
  | tag
  | quoted (q : Quote)
  /-- `|` or `>` and the indicators after it -/
  | header
  /-- The text of a plain or a block scalar. -/
  | text
  deriving DecidableEq, Repr

/-- The kind of a lexeme that is no text of a scalar. Not every text is one. -/
def Kind.of? (cs : List Char) : Option Kind :=
  match cs with
  | ['\uFEFF'] => some .byteOrderMark
  | ['-', '-', '-'] => some .documentStart
  | ['.', '.', '.'] => some .documentEnd
  | ['\n'] | ['\r', '\n'] => some .newline
  | ['-'] => some .dash
  | ['?'] => some .question
  | [':'] => some .colon
  | ['{'] => some (.opening .brace)
  | ['}'] => some (.closing .brace)
  | ['['] => some (.opening .square)
  | [']'] => some (.closing .square)
  | [','] => some .comma
  | ' ' :: _ | '\t' :: _ => some .blank
  | '#' :: _ => some .comment
  | '%' :: _ => some .directive
  | '*' :: _ => some .alias
  | '&' :: _ => some .anchor
  | '!' :: _ => some .tag
  | '\'' :: _ => some (.quoted .single)
  | '"' :: _ => some (.quoted .double)
  | '|' :: _ | '>' :: _ => some .header
  | _ => none

end Lexeme

structure Lexeme where
  kind : Lexeme.Kind
  chars : List Char
  deriving DecidableEq, Repr

namespace Lexeme

def length (x : Lexeme) : Nat := units16 x.chars

end Lexeme

end Yaml

end Seedbed
