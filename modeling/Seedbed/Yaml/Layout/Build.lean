import Seedbed.Yaml.Layout
/-! Builds layouts from lexemes. What is open stands on a stack; a lexeme either goes into the
topmost open part or first closes it, so that the next one is asked. There is no answer where a
lexeme fits nowhere. -/

namespace Seedbed

namespace Yaml

inductive Frame
  | document (offset : Nat) (start : List Token) (value : Option Layout) (trail : List Token)
  | documentEnd (trail : List Token)
  | layout (l : Layout)

structure Build where
  atNewLine : Bool := true
  indent : Nat := 0
  offset : Nat := 0
  /-- A key stands before in the line. -/
  onKeyLine : Bool := false
  /-- The open parts, the innermost first. -/
  stack : List Frame := []
  parts : List Part := []

namespace Build

def setLast {α : Type} (l : List α) (a : α) : List α := l.dropLast ++ [a]

/-- Cuts off what belongs to the first key of a line: all after the last line break or indicator
and the blanks that follow it. -/
def cutKeyStart (ts : List Token) : List Token × List Token :=
  let isBefore (t : Token) : Bool :=
    t.kind = .documentStart || t.kind = .question || t.kind = .colon || t.kind = .dash
      || t.kind = .newline
  let after := (ts.reverse.takeWhile (!isBefore ·)).reverse
  let n := ts.length - after.length + (after.takeWhile (·.kind = .blank)).length
  (ts.take n, ts.drop n)

/-- Takes the start of a new map's first key from where it stands so far. -/
def takeKeyStart (parent : Frame) : List Token × Frame :=
  match parent with
  | .document o start v tr =>
    let (kept, taken) := cutKeyStart start
    (taken, .document o kept v tr)
  | .layout (.blockMap o i entries) =>
    match entries.getLast? with
    | none => ([], parent)
    | some e =>
      match e.sep with
      | some sep =>
        let (kept, taken) := cutKeyStart sep
        (taken, .layout (.blockMap o i (setLast entries { e with sep := some kept })))
      | none =>
        let (kept, taken) := cutKeyStart e.start
        (taken, .layout (.blockMap o i (setLast entries { e with start := kept })))
  | .layout (.blockSeq o i entries) =>
    match entries.getLast? with
    | none => ([], parent)
    | some e =>
      let (kept, taken) := cutKeyStart e.start
      (taken, .layout (.blockSeq o i (setLast entries { e with start := kept })))
  | _ => ([], parent)

/-- An entry of a sequence in brackets that turns out to have no `:` is an item. -/
def asItem (e : Entry) : Entry :=
  match e.sep with
  | some sep =>
    if e.value.isNone && !hasKind .question e.start && !hasKind .colon sep then
      match e.key with
      | some key =>
        if key.isInline then { e with key := none, sep := none, value := some (key.followedBy sep) }
        else { e with key := none, sep := none, value := some key, start := e.start ++ sep }
      | none => { e with sep := none, start := e.start ++ sep }
    else e
  | none => e

def asItems (opening : Token) (entries : List Entry) : List Entry :=
  if opening.kind = .opening .square then entries.map asItem else entries

/-- White space and comments at the end of a collection may belong to what it stands in: those of
an entry that holds nothing else, unless a comment is indented like the collection. -/
def giveBack (l : Layout) : Layout × Option (List Token) :=
  let cut (indent : Nat) (entries : List Entry) : Option (List Token) :=
    match entries.getLast? with
    | none => none
    | some e =>
      if e.sep.isNone && e.value.isNone && e.start ≠ [] && e.start.all Token.isFiller
          && (indent = 0 || e.start.all fun t => t.kind ≠ .comment || t.indent < indent) then
        some e.start
      else none
  match l with
  | .blockMap o i entries =>
    match cut i entries with
    | some start => (.blockMap o i entries.dropLast, some start)
    | none => (l, none)
  | .blockSeq o i entries =>
    match cut i entries with
    | some start => (.blockSeq o i entries.dropLast, some start)
    | none => (l, none)
  | l => (l, none)

def givenBack (start : Option (List Token)) : List Entry :=
  (start.map fun s => { start := s }).toList

def settled (l : Layout) (parent : Frame) : Layout :=
  match l, parent with
  | .block o _ h t, .layout p => .block o p.indent h t
  | .block o _ h t, _ => .block o 0 h t
  | .flow o _ es c, .document .. => .flow o 0 (asItems o es) c
  | .flow o i es c, _ => .flow o i (asItems o es) c
  | l, _ => l

def attach (l : Layout) (parent : Frame) (rest : List Frame) (b : Build) : Option Build :=
  let l := settled l parent
  let put (parent : Layout) : Build := { b with stack := .layout parent :: rest }
  match parent with
  | .document o start _ trail =>
    let (l, back) := giveBack l
    some { b with stack := .document o start (some l) (back.getD trail) :: rest }
  | .layout (.blockMap o i entries) =>
    match entries.getLast? with
    | none => none
    | some e =>
      if e.value.isSome then
        some { put (.blockMap o i (entries ++ [{ key := some l, sep := some [] }])) with
          onKeyLine := true }
      else if e.sep.isSome then
        let (l, back) := giveBack l
        some (put (.blockMap o i (setLast entries { e with value := some l } ++ givenBack back)))
      else
        some { put (.blockMap o i (setLast entries { e with key := some l, sep := some [] })) with
          onKeyLine := !e.isExplicit }
  | .layout (.blockSeq o i entries) =>
    let (l, back) := giveBack l
    match entries.getLast? with
    | none => none
    | some e =>
      let entries :=
        if e.value.isSome then entries ++ [{ value := some l }]
        else setLast entries { e with value := some l }
      some (put (.blockSeq o i (entries ++ givenBack back)))
  | .layout (.flow o i entries closing) =>
    let entries :=
      match entries.getLast? with
      | none => [{ key := some l, sep := some [] }]
      | some e =>
        if e.value.isSome then entries ++ [{ key := some l, sep := some [] }]
        else if e.sep.isSome then setLast entries { e with value := some l }
        else setLast entries { e with key := some l, sep := some [] }
    some (put (.flow o i entries closing))
  | _ => none

def pop (b : Build) : Option Build :=
  match b.stack with
  | [.document o start v tr] => some { b with stack := [], parts := .document o start v tr :: b.parts }
  | [.documentEnd tr] => some { b with stack := [], parts := .documentEnd tr :: b.parts }
  | .layout l :: parent :: rest => attach l parent rest b
  | _ => none

def popAll : Nat → Build → Option Build
  | 0, b => if b.stack.isEmpty then some b else none
  | n + 1, b => if b.stack.isEmpty then some b else b.pop.bind (popAll n)

def isFlow : Frame → Bool
  | .layout (.flow ..) => true
  | _ => false

def popFlow : Nat → Build → Option Build
  | 0, _ => none
  | n + 1, b =>
    b.pop.bind fun b => if (b.stack.head?.map isFlow).getD false then popFlow n b else some b

/-- The innermost part with one more token, in place of what it is now. -/
def replaceTop (f : Frame) (b : Build) : Build := { b with stack := f :: b.stack.tail }

def push (l : Layout) (b : Build) : Build := { b with stack := .layout l :: b.stack }

/-- The layout that a token begins, where a value can stand. The start of a new map's first key is
taken from the parent. -/
def open? (t : Token) (parent : Frame) : Option (Layout × Frame × Bool) :=
  match t.kind with
  | .alias | .text | .quoted _ => some (.scalar t [], parent, false)
  | .header => some (.block t.offset t.indent [t] [], parent, false)
  | .opening _ => some (.flow t t.indent [] [], parent, false)
  | .dash => some (.blockSeq t.offset t.indent [{ start := [t] }], parent, false)
  | .question =>
    let (start, parent) := takeKeyStart parent
    some (.blockMap t.offset t.indent [{ start := start ++ [t], isExplicit := true }], parent, true)
  | .colon =>
    let (start, parent) := takeKeyStart parent
    some (.blockMap t.offset t.indent [{ start, sep := some [t] }], parent, true)
  | _ => none

def openOn (t : Token) (parent : Frame) (rest : List Frame) (b : Build) : Option Build :=
  (open? t parent).map fun (l, parent, isKey) =>
    { b with stack := .layout l :: parent :: rest, onKeyLine := isKey || b.onKeyLine }

/-- What a token does: it is taken in, or the innermost part has to be closed first. -/
inductive Reaction
  | taken (b : Build)
  | closes

def inStream (t : Token) (b : Build) : Option Build :=
  match t.kind with
  | .directive => some { b with parts := .directive t.chars :: b.parts }
  | .byteOrderMark | .blank | .comment | .newline => some b
  | .document => some { b with stack := [.document t.offset [] none []] }
  | .documentStart => some { b with stack := [.document t.offset [t] none []] }
  | _ => none

/-- The kinds of tokens that end a line's content without being part of it. -/
def endsContent : Lexeme.Kind → Bool
  | .comma | .documentStart | .documentEnd | .closing _ | .colon => true
  | _ => false

/-- A token after the content of a line. `appended` is the innermost part with the token. -/
def atLineEnd (t : Token) (appended : Frame) (b : Build) : Option Reaction :=
  if endsContent t.kind then some .closes
  else
    let b := b.replaceTop appended
    if t.isNewline then ({ b with onKeyLine := false } : Build).pop.map .taken
    else some (.taken b)

def inDocument (t : Token) (offset : Nat) (start : List Token) (value : Option Layout)
    (trail : List Token) (rest : List Frame) (b : Build) : Option Reaction :=
  if value.isSome then atLineEnd t (.document offset start value (trail ++ [t])) b
  else
    match t.kind with
    | .documentStart =>
      if start.all Token.isFiller then
        some (.taken (b.replaceTop (.document offset (start ++ [t]) value trail)))
      else some .closes
    | .anchor | .tag | .blank | .comment | .newline =>
      some (.taken (b.replaceTop (.document offset (start ++ [t]) value trail)))
    | _ => (openOn t (.document offset start value trail) rest b).map .taken

/-- A token after a scalar. A `:` makes the scalar the first key of a map. -/
def afterScalar (t scalar : Token) (trail : List Token) (rest : List Frame) (b : Build) :
    Option Reaction :=
  if t.kind = .colon then
    match rest with
    | [] => none
    | parent :: rest =>
      let (start, parent) := takeKeyStart parent
      let entry : Entry := { start, key := some (.scalar scalar []), sep := some (trail ++ [t]) }
      some (.taken { b with
        onKeyLine := true
        stack := .layout (.blockMap scalar.offset scalar.indent [entry]) :: parent :: rest })
  else atLineEnd t (.layout (.scalar scalar (trail ++ [t]))) b

/-- A token after the header of a block scalar. -/
def inBlockScalar (t : Token) (offset indent : Nat) (header : List Token) (text : List Char)
    (b : Build) : Option Reaction :=
  match t.kind with
  | .blank | .comment | .newline =>
    some (.taken (b.replaceTop (.layout (.block offset indent (header ++ [t]) text))))
  | .text =>
    let b := b.replaceTop (.layout (.block offset indent header t.chars))
    ({ b with atNewLine := true, indent := 0 } : Build).pop.map .taken
  | _ => some .closes

/-- A comment that is indented more than the collection, after nothing but white space. -/
def isIndentedComment (t : Token) (start : List Token) (indent : Nat) : Bool :=
  t.kind = .comment && indent < t.indent && start.all fun s => s.isNewline || s.kind = .blank

/-- The entries after a line break. It may belong to a comment after the last value. -/
def entriesAfterNewline (t : Token) (entries : List Entry) (e : Entry) : List Entry :=
  match e.value with
  | some v =>
    if ((v.trail?.bind List.getLast?).map (·.kind)) = some .comment then
      setLast entries { e with value := some (v.followedBy [t]) }
    else entries ++ [{ start := [t] }]
  | none =>
    match e.sep with
    | some sep => setLast entries { e with sep := some (sep ++ [t]) }
    | none => setLast entries { e with start := e.start ++ [t] }

/-- The entries after a blank or a comment. A comment that is indented more than the collection
belongs to the value before it. -/
def entriesAfterFiller (t : Token) (indent : Nat) (entries : List Entry) (e : Entry) : List Entry :=
  if e.value.isSome then entries ++ [{ start := [t] }]
  else
    match e.sep with
    | some sep => setLast entries { e with sep := some (sep ++ [t]) }
    | none =>
      let previous := entries.dropLast.getLast?
      match isIndentedComment t e.start indent, previous.bind (·.value) with
      | true, some v =>
        match previous, v.trail? with
        | some p, some _ =>
          setLast entries.dropLast { p with value := some (v.followedBy (e.start ++ [t])) }
        | _, _ => setLast entries { e with start := e.start ++ [t] }
      | _, _ => setLast entries { e with start := e.start ++ [t] }

/-- Where the lines between an empty value and the next key are cut: at the second of the line
breaks after the last thing that belongs to the value. -/
def nextStart (indent : Nat) (sep : List Token) : List Token × List Token :=
  let breaks := (sep.zipIdx.foldl (fun (breaks : List Nat) (t, i) =>
    match t.kind with
    | .newline => breaks ++ [i]
    | .blank => breaks
    | .comment => if indent < t.indent then [] else breaks
    | _ => []) [])
  match breaks with
  | _ :: n :: _ => (sep.take n, sep.drop n)
  | _ => (sep, [])

def valueOfExplicit (t : Token) (offset indent : Nat) (entries : List Entry) (e : Entry)
    (start : List Token) (rest : List Frame) (b : Build) : Build :=
  let withMap (entries : List Entry) : Build :=
    { b with stack := .layout (.blockMap offset indent entries) :: rest }
  let inner (entry : Entry) (b : Build) : Build := b.push (.blockMap t.offset t.indent [entry])
  match e.sep with
  | none =>
    if hasKind .newline e.start then withMap (setLast entries { e with key := none, sep := some [t] })
    else
      let (kept, taken) := cutKeyStart e.start
      inner { start := taken, sep := some [t] } (withMap (setLast entries { e with start := kept }))
  | some sep =>
    if e.value.isSome then withMap (entries ++ [{ sep := some [t] }])
    else if hasKind .colon sep then inner { start, sep := some [t] } (withMap entries)
    else if (e.key.map Layout.isInline).getD false && !hasKind .newline sep then
      let (kept, taken) := cutKeyStart e.start
      inner { start := taken, key := e.key, sep := some (sep ++ [t]) }
        (withMap (setLast entries { e with start := kept, key := none, sep := none }))
    else withMap (setLast entries { e with sep := some (sep ++ start ++ [t]) })

def valueOfImplicit (t : Token) (offset indent : Nat) (entries : List Entry) (e : Entry)
    (start : List Token) (atNext : Bool) (rest : List Frame) (b : Build) : Build :=
  let withMap (entries : List Entry) : Build :=
    { b with stack := .layout (.blockMap offset indent entries) :: rest }
  match e.sep with
  | none => withMap (setLast entries { e with key := none, sep := some [t] })
  | some sep =>
    if e.value.isSome || atNext then withMap (entries ++ [{ start, sep := some [t] }])
    else if hasKind .colon sep then
      (withMap entries).push (.blockMap t.offset t.indent [{ sep := some [t] }])
    else withMap (setLast entries { e with sep := some (sep ++ [t]) })

def inIndentedMap (t : Token) (offset indent : Nat) (entries : List Entry) (e : Entry)
    (rest : List Frame) (b : Build) : Option Reaction :=
  let atMap := !b.onKeyLine && t.indent = indent
  let atNext := atMap && (e.sep.isSome || e.isExplicit) && t.kind ≠ .dash
  let (sep, start) :=
    match e.sep with
    | some sep =>
      if atNext && e.value.isNone then
        let (kept, next) := nextStart indent sep
        (some kept, next)
      else (some sep, [])
    | none => (none, [])
  let e := { e with sep }
  let entries := setLast entries e
  let withMap (entries : List Entry) : Build :=
    { b with stack := .layout (.blockMap offset indent entries) :: rest }
  let onKey (b : Build) : Option Reaction := some (.taken { b with onKeyLine := true })
  match t.kind with
  | .anchor | .tag =>
    if atNext || e.value.isSome then onKey (withMap (entries ++ [{ start := start ++ [t] }]))
    else
      match e.sep with
      | some sep => some (.taken (withMap (setLast entries { e with sep := some (sep ++ [t]) })))
      | none => some (.taken (withMap (setLast entries { e with start := e.start ++ [t] })))
  | .question =>
    if e.sep.isNone && !e.isExplicit then
      onKey (withMap (setLast entries { e with start := e.start ++ [t], isExplicit := true }))
    else if atNext || e.value.isSome then
      onKey (withMap (entries ++ [{ start := start ++ [t], isExplicit := true }]))
    else
      onKey ((withMap entries).push
        (.blockMap t.offset t.indent [{ start := [t], isExplicit := true }]))
  | .colon =>
    onKey (if e.isExplicit then valueOfExplicit t offset indent entries e start rest b
      else valueOfImplicit t offset indent entries e start atNext rest b)
  | .alias | .text | .quoted _ =>
    if atNext || e.value.isSome then
      onKey (withMap (entries ++ [{ start, key := some (.scalar t []), sep := some [] }]))
    else if e.sep.isSome then some (.taken ((withMap entries).push (.scalar t [])))
    else onKey (withMap (setLast entries { e with key := some (.scalar t []), sep := some [] }))
  | .dash =>
    if !e.isExplicit && (e.sep.map fun sep => !hasKind .newline sep).getD false then none
    else (openOn t (.layout (.blockMap offset indent entries)) rest b).map .taken
  | _ =>
    let entries' := if atMap then entries ++ [{ start }] else entries
    match openOn t (.layout (.blockMap offset indent entries')) rest b with
    | some b => some (.taken b)
    | none => some .closes

def inBlockMap (t : Token) (offset indent : Nat) (entries : List Entry) (rest : List Frame)
    (b : Build) : Option Reaction :=
  match entries.getLast? with
  | none => none
  | some e =>
    let withMap (entries : List Entry) : Build :=
      { b with stack := .layout (.blockMap offset indent entries) :: rest }
    match t.kind with
    | .newline =>
      some (.taken { withMap (entriesAfterNewline t entries e) with onKeyLine := false })
    | .blank | .comment => some (.taken (withMap (entriesAfterFiller t indent entries e)))
    | _ =>
      if indent ≤ t.indent then inIndentedMap t offset indent entries e rest b else some .closes

def inBlockSeq (t : Token) (offset indent : Nat) (entries : List Entry) (rest : List Frame)
    (b : Build) : Option Reaction :=
  match entries.getLast? with
  | none => none
  | some e =>
    let withSeq (entries : List Entry) : Option Reaction :=
      some (.taken { b with stack := .layout (.blockSeq offset indent entries) :: rest })
    let value : Option Reaction :=
      if indent < t.indent then
        match openOn t (.layout (.blockSeq offset indent entries)) rest b with
        | some b => some (.taken b)
        | none => some .closes
      else some .closes
    match t.kind with
    | .newline => withSeq (entriesAfterNewline t entries e)
    | .blank | .comment => withSeq (entriesAfterFiller t indent entries e)
    | .anchor | .tag =>
      if e.value.isSome || t.indent ≤ indent then value
      else withSeq (setLast entries { e with start := e.start ++ [t] })
    | .dash =>
      if t.indent ≠ indent then value
      else if e.value.isSome || hasKind .dash e.start then withSeq (entries ++ [{ start := [t] }])
      else withSeq (setLast entries { e with start := e.start ++ [t] })
    | _ => value

def inBrackets (t opening : Token) (indent : Nat) (entries : List Entry) (rest : List Frame)
    (b : Build) : Option Reaction :=
  let withFlow (entries : List Entry) : Build :=
    { b with stack := .layout (.flow opening indent entries []) :: rest }
  let last := entries.getLast?
  let fresh := match last with
    | none => true
    | some e => e.value.isSome
  match t.kind with
  | .comma | .question =>
    match last with
    | some e =>
      if e.sep.isSome then some (.taken (withFlow (entries ++ [{ start := [t] }])))
      else some (.taken (withFlow (setLast entries { e with start := e.start ++ [t] })))
    | none => some (.taken (withFlow [{ start := [t] }]))
  | .colon =>
    match last, fresh with
    | some e, false =>
      some (.taken (withFlow (setLast entries { e with sep := some (e.sep.getD [] ++ [t]) })))
    | _, _ => some (.taken (withFlow (entries ++ [{ sep := some [t] }])))
  | .blank | .comment | .newline | .anchor | .tag =>
    match last, fresh with
    | some e, false =>
      match e.sep with
      | some sep => some (.taken (withFlow (setLast entries { e with sep := some (sep ++ [t]) })))
      | none => some (.taken (withFlow (setLast entries { e with start := e.start ++ [t] })))
    | _, _ => some (.taken (withFlow (entries ++ [{ start := [t] }])))
  | .alias | .text | .quoted _ =>
    match last, fresh with
    | some e, false =>
      if e.sep.isSome then some (.taken ((withFlow entries).push (.scalar t [])))
      else
        some (.taken (withFlow
          (setLast entries { e with key := some (.scalar t []), sep := some [] })))
    | _, _ =>
      some (.taken (withFlow (entries ++ [{ key := some (.scalar t []), sep := some [] }])))
  | .closing _ =>
    some (.taken { b with stack := .layout (.flow opening indent entries [t]) :: rest })
  | _ =>
    match openOn t (.layout (.flow opening indent entries [])) rest b with
    | some b => some (.taken b)
    | none => some .closes

def afterBrackets (t opening : Token) (indent : Nat) (entries : List Entry) (closing : List Token)
    (rest : List Frame) (b : Build) : Option Reaction :=
  let isKeyOfParent : Bool :=
    match rest.head? with
    | some (.layout (.blockMap _ i es)) =>
      (t.kind = .colon && i = indent)
        || (t.isNewline && ((es.getLast?.map fun e => e.sep.isNone).getD false))
    | _ => false
  let inFlow : Bool :=
    match rest.head? with
    | some (.layout (.flow ..)) => true
    | _ => false
  if isKeyOfParent then some .closes
  else if t.kind = .colon && !inFlow then
    match rest with
    | [] => none
    | parent :: rest =>
      let (start, parent) := takeKeyStart parent
      let key := Layout.flow opening indent (asItems opening entries) (closing.take 1)
      let entry : Entry := { start, key := some key, sep := some (closing.drop 1 ++ [t]) }
      some (.taken { b with
        onKeyLine := true
        stack := .layout (.blockMap opening.offset indent [entry]) :: parent :: rest })
  else atLineEnd t (.layout (.flow opening indent entries (closing ++ [t]))) b

def react (t : Token) (b : Build) : Option Reaction :=
  match b.stack with
  | [] => (inStream t b).map .taken
  | .document o start v trail :: rest => inDocument t o start v trail rest b
  | .documentEnd trail :: _ =>
    if t.kind = .document then some (.taken b)
    else
      let b := b.replaceTop (.documentEnd (trail ++ [t]))
      if t.isNewline then b.pop.map .taken else some (.taken b)
  | .layout (.scalar s trail) :: rest => afterScalar t s trail rest b
  | .layout (.block o i h x) :: _ => inBlockScalar t o i h x b
  | .layout (.blockMap o i es) :: rest => inBlockMap t o i es rest b
  | .layout (.blockSeq o i es) :: rest => inBlockSeq t o i es rest b
  | .layout (.flow o i es closing) :: rest =>
    if t.kind = .flowEnd then (popFlow b.stack.length b).map .taken
    else if closing = [] then inBrackets t o i es rest b
    else afterBrackets t o i es closing rest b

/-- Closes open parts until one takes the token in. -/
def place (t : Token) : Nat → Build → Option Build
  | 0, _ => none
  | n + 1, b =>
    match react t b with
    | none => none
    | some (.taken b) => some b
    | some .closes => b.pop.bind (place t n)

def isDocumentEnd : Frame → Bool
  | .documentEnd _ => true
  | _ => false

/-- Places a token. The mark `...` closes everything. -/
def placeAny (t : Token) (b : Build) : Option Build :=
  if t.kind = .documentEnd && !((b.stack.head?.map isDocumentEnd).getD false) then
    (popAll b.stack.length b).map fun b => { b with stack := [.documentEnd []] }
  else place t (b.stack.length + 1) b

def moveOn (x : Lexeme) (b : Build) : Build :=
  match x.kind with
  | .document | .flowEnd => b
  | .newline => { b with atNewLine := true, indent := 0, offset := b.offset + x.length }
  | .blank =>
    { b with
      indent := if b.atNewLine && x.chars.head? = some ' ' then b.indent + x.length else b.indent
      offset := b.offset + x.length }
  | .question | .colon | .dash =>
    { b with
      indent := if b.atNewLine then b.indent + x.length else b.indent
      offset := b.offset + x.length }
  | .text => { b with offset := b.offset + x.length }
  | _ => { b with atNewLine := false, offset := b.offset + x.length }

def feed (b : Build) (x : Lexeme) : Option Build :=
  let b := if x.kind = .text then { b with atNewLine := false } else b
  (placeAny ⟨x.kind, b.offset, b.indent, x.chars⟩ b).map (moveOn x)

end Build

def parts? (xs : List Lexeme) : Option (List Part) := do
  let b ← xs.foldlM Build.feed {}
  let b ← Build.popAll b.stack.length b
  return b.parts.reverse

end Yaml

end Seedbed
