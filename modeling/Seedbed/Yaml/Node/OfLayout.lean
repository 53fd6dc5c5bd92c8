import Seedbed.Yaml.Node
import Seedbed.Yaml.Node.Props
import Seedbed.Yaml.Node.Tag
import Seedbed.Yaml.Scalar.Block
import Seedbed.Yaml.Scalar.Escaped
import Seedbed.Yaml.Scalar.Tagged
/-! The node that a layout describes, if it is allowed: indentation, indicators, separation by
white space, keys on one line and no key twice in a map. Each node comes with the offset just past
it. -/

namespace Seedbed

namespace Yaml

namespace Layout

/-- A key that needs a second line. -/
def hasNewline : Layout → Bool
  | scalar t trail => t.chars.contains '\n' || trail.any Token.isNewline
  | flow _ _ entries _ => entriesHaveNewline entries
  | _ => true
where
  entriesHaveNewline : List (EntryOf Layout) → Bool
    | [] => false
    | ⟨start, _, key, sep, value⟩ :: rest =>
      start.any Token.isNewline || (sep.getD []).any Token.isNewline
        || (match key with
          | some k => hasNewline k
          | none => false)
        || (match value with
          | some v => hasNewline v
          | none => false)
        || entriesHaveNewline rest

end Layout

namespace Node

/-- The longest distance from the start of a key without `?` to its `:`. -/
def keyLimit : Nat := 1024

/-- The tag of a node, if it is written rightly. No tag has the empty name. -/
def tagOf? (directives : Directives) (props : Props) : Option (Option String) :=
  match props.tag with
  | none => some none
  | some t =>
    (tagName? directives.handles t.chars).map fun name => if name = "" then none else some name

def anchorOf? (props : Props) : Option (Option String) :=
  match props.anchor with
  | none => some none
  | some t => if t.chars.drop 1 = [] then none else some (some (.ofList (t.chars.drop 1)))

def label? (directives : Directives) (props : Props) : Option Label := do
  let anchor ← anchorOf? props
  let tag ← tagOf? directives props
  return { anchor, tag }

def scalarOf? (version : Version) (label : Label) (style : Style) (text : List Char) :
    Option Node :=
  let value : Option Value :=
    match label.tag with
    | some tag => Scalar.taggedValue? version tag text
    | none => some (if style = .plain then Scalar.plainValue version text else .text (.ofList text))
  value.map fun value =>
    scalar label { value, text, style, merges := Scalar.isMergeMark value }

/-- A node without characters. `before` stands before it. -/
def empty? (directives : Directives) (props : Props) (offset : Nat) (before : List Token) :
    Option (Node × Nat) := do
  let node ← scalarOf? directives.version (← label? directives props) .plain []
  return (node, if props.hasComment then props.stop else emptyOffset offset before)

def inline? (directives : Directives) (props : Props) (t : Token) (trail : List Token) :
    Option (Node × Nat) := do
  let stop ← trailStop? t.stop true trail
  match t.kind with
  | .alias =>
    if props.anchor.isSome || props.tag.isSome || t.chars.drop 1 = [] then none
    else return (.alias (.ofList (t.chars.drop 1)), stop)
  | .text =>
    let text ← plainText? t.chars
    return (← scalarOf? directives.version (← label? directives props) .plain text, stop)
  | .quoted .single =>
    let text ← singleQuotedText? t.chars
    return (← scalarOf? directives.version (← label? directives props) .singleQuoted text, stop)
  | .quoted .double =>
    let text ← doubleQuotedText? t.chars
    return (← scalarOf? directives.version (← label? directives props) .doubleQuoted text, stop)
  | _ => none

def headerStop? (offset : Nat) : List Token → Option Nat
  | [] => none
  | h :: rest => if h.kind = .header then trailStop? (offset + h.length) true rest else none

def block? (directives : Directives) (props : Props) (atRoot : Bool) (offset indent : Nat)
    (header : List Token) (text : List Char) : Option (Node × Nat) := do
  let stop ← headerStop? offset header
  let h ← (header.head?).bind fun t => BlockHeader.read? t.chars
  let value ← BlockText.value? h indent atRoot text
  let node ← scalarOf? directives.version (← label? directives props) .block value
  return (node, stop + units16 text)

/-- A sequence that begins in the line of its anchor or tag is not allowed. -/
def seqMayBegin (props : Props) : Bool :=
  let last : Nat := max ((props.anchor.map Token.offset).getD 0) ((props.tag.map Token.offset).getD 0)
  (props.anchor.isNone && props.tag.isNone) || props.newlineAfter.any fun t => last ≤ t.offset

/-- A pair as an item of a list of pairs. It has no anchor and no tag. -/
def asPair : Node → Node
  | map _ [] => map {} [(emptyScalar, none)]
  | map _ pairs => map {} pairs
  | item => map {} [(item, none)]

def isNullValue : Option Node → Bool
  | none => true
  | some (scalar label s) =>
    label.tag.isNone && (match s.value with
      | .null => true
      | _ => false)
  | some _ => false

def keysDiffer : List Node → Bool
  | [] => true
  | item :: rest => !rest.any (fun other => sameFirst item other) && keysDiffer rest
where
  sameFirst : Node → Node → Bool
    | map _ ((scalar _ a, _) :: _), map _ ((scalar _ b, _) :: _) => sameOrNaN a.value b.value
    | _, _ => false

def isSinglePair : Node → Bool
  | map _ (_ :: _ :: _) => false
  | _ => true

/-- A collection as its tag has it: sets have no values, and lists of pairs have one pair for each
item, in ordered maps with different keys. -/
def tagged? : Node → Option Node
  | map label pairs =>
    if label.tag = some setTag && !pairs.all (fun p => isNullValue p.2) then none
    else some (map label pairs)
  | seq label items =>
    let ordered := label.tag = some orderedMapTag
    if ordered || label.tag = some pairsTag then
      let pairs := items.map asPair
      if items.all isSinglePair && (!ordered || keysDiffer pairs) then some (seq label pairs)
      else none
    else some (seq label items)
  | node => some node

structure Reading where
  pairs : List (Node × Option Node) := []
  items : List Node := []
  offset : Nat
  /-- The offset of comments at the end. -/
  commentStop : Option Nat := none

namespace Reading

def hasKey (r : Reading) (key : Node) : Bool := r.pairs.any fun p => p.1.sameKey key

def stop (r : Reading) : Nat := r.commentStop.getD r.offset

/-- No content follows comments at the end. -/
def isClosed (r : Reading) : Bool :=
  r.commentStop.all fun n => n = 0 || r.offset ≤ n

end Reading

def keyProps? (indent offset : Nat) (start : List Token) (key : Option Layout)
    (sep : Option (List Token)) : Option Props :=
  Props.read? { indicator := .question, next := .of key (sep.getD []), offset, indent,
                atNewline := true } start

/-- A key without `?` is indented like its map, and it is no sequence. -/
def implicitKeyFits (indent : Nat) (key : Option Layout) : Bool :=
  key.all fun k => !k.isBlockSeq && k.indent = indent

def valueProps? (indent offset : Nat) (key : Option Layout) (sep : Option (List Token))
    (value : Option Layout) : Option Props :=
  let atNewline := match key with
    | none | some (.block ..) => true
    | _ => false
  Props.read? { indicator := .colon, next := .of value [], offset, indent, atNewline } (sep.getD [])

/-- The value of a key without `?` may stand where it stands: a map in a line of its own, and any
value not too far from the key. -/
def implicitValueFits (keyProps valueProps : Props) (found : Token) (value : Option Layout) : Bool :=
  (valueProps.hasNewline || !value.any Layout.isBlockMap)
    && found.offset ≤ keyProps.start + keyLimit

def flowProps? (offset indent : Nat) (start : List Token) (key : Option Layout)
    (sep : Option (List Token)) : Option Props :=
  Props.read? { inFlow := true, indicator := .question, next := .of key (sep.getD []), offset, indent,
                atNewline := false } start

def flowValueProps? (offset indent : Nat) (sep : Option (List Token)) (value : Option Layout) :
    Option Props :=
  Props.read? { inFlow := true, indicator := .colon, next := .of value [], offset, indent,
                atNewline := false } (sep.getD [])

/-- A comma stands before each entry but the first. -/
def commaFits (first : Bool) (props : Props) : Bool := props.comma != first

/-- The key of a pair in square brackets is in the line of its `:` and not too far from it. -/
def pairKeyFits (props : Props) (sep : Option (List Token)) (found : Token) : Bool :=
  !((sep.getD []).takeWhile (·.kind ≠ .colon)).any Token.isNewline
    && found.offset ≤ props.start + keyLimit

def closingStop? (opening : Token) (closing : List Token) : Option Nat :=
  match opening.kind, closing with
  | .opening b, c :: rest => if c.kind = .closing b then trailStop? c.stop true rest else none
  | _, _ => none

mutual

/-- The node of a layout with the given properties, and the offset just past it. -/
def ofLayout? (directives : Directives) (atRoot : Bool) (props : Props) :
    Layout → Option (Node × Nat)
  | .scalar t trail => inline? directives props t trail
  | .block offset indent header text => block? directives props atRoot offset indent header text
  | .blockMap offset indent entries => do
    let r ← mapEntries? directives indent { offset } entries
    let label ← label? directives props
    if r.isClosed then return (← tagged? (map label r.pairs.reverse), r.stop) else none
  | .blockSeq offset indent entries => do
    if !seqMayBegin props then none
    let r ← seqEntries? directives indent { offset } entries
    let label ← label? directives props
    return (← tagged? (seq label r.items.reverse), r.stop)
  | .flow opening indent entries closing => do
    let isMap := opening.kind = .opening .brace
    let r ← flowEntries? directives isMap indent true { offset := opening.stop } entries
    let stop ← closingStop? opening closing
    let label ← label? directives props
    let node := if isMap then map label r.pairs.reverse else seq label r.items.reverse
    return (← tagged? node, stop)
termination_by structural l => l

def mapEntries? (directives : Directives) (indent : Nat) (r : Reading) :
    List (EntryOf Layout) → Option Reading
  | [] => some r
  | ⟨start, _, key, sep, value⟩ :: rest => do
    let keyProps ← keyProps? indent r.offset start key sep
    let implicit := keyProps.found.isNone
    if implicit && !implicitKeyFits indent key then none
    if keyProps.found.any (·.indent ≠ indent) then none
    if implicit && keyProps.anchor.isNone && keyProps.tag.isNone && sep.isNone then
      mapEntries? directives indent { r with commentStop := some keyProps.stop } rest
    else
      if implicit && (keyProps.newlineAfter.isSome || key.any Layout.hasNewline) then none
      let (keyNode, keyStop) ←
        match key with
        | some k => ofLayout? directives false keyProps k
        | none => empty? directives keyProps keyProps.stop start
      let keyNode := keyNode.asKey directives.version
      if r.hasKey keyNode then none
      let valueProps ← valueProps? indent keyStop key sep value
      match valueProps.found with
      | none =>
        if implicit then none
        let r := { r with pairs := (keyNode, none) :: r.pairs, offset := valueProps.stop }
        mapEntries? directives indent r rest
      | some found =>
        if implicit && !implicitValueFits keyProps valueProps found value then none
        let (valueNode, stop) ←
          match value with
          | some v => ofLayout? directives false valueProps v
          | none => empty? directives valueProps valueProps.stop (sep.getD [])
        let r := { r with pairs := (keyNode, some valueNode) :: r.pairs, offset := stop }
        mapEntries? directives indent r rest
termination_by structural l => l

def seqEntries? (directives : Directives) (indent : Nat) (r : Reading) :
    List (EntryOf Layout) → Option Reading
  | [] => some r
  | ⟨start, _, _, _, value⟩ :: rest => do
    let props ← Props.read? { indicator := .dash, next := .of value [], offset := r.offset, indent,
                              atNewline := true } start
    if props.found.isNone then
      if props.anchor.isSome || props.tag.isSome || value.isSome then none
      seqEntries? directives indent { r with commentStop := some props.stop } rest
    else
      let (node, stop) ←
        match value with
        | some v => ofLayout? directives false props v
        | none => empty? directives props props.stop start
      seqEntries? directives indent { r with items := node :: r.items, offset := stop } rest
termination_by structural l => l

def flowEntries? (directives : Directives) (isMap : Bool) (indent : Nat) (first : Bool)
    (r : Reading) : List (EntryOf Layout) → Option Reading
  | [] => some r
  | ⟨start, _, key, sep, value⟩ :: rest => do
    let props ← flowProps? r.offset indent start key sep
    let implicit := props.found.isNone
    if implicit && props.anchor.isNone && props.tag.isNone && sep.isNone && value.isNone then
      -- only after the last comma nothing may stand
      if (first && props.comma) || !rest.isEmpty then none
      flowEntries? directives isMap indent false { r with offset := props.stop } rest
    else
      if implicit && !isMap && key.any Layout.hasNewline then none
      if !commaFits first props then none
      if !isMap && implicit && sep.isNone then
        let (node, stop) ←
          match value with
          | some v => ofLayout? directives false props v
          | none => empty? directives props props.stop []
        if value.any Layout.isBlockCollection then none
        let r := { r with items := node :: r.items, offset := stop }
        flowEntries? directives isMap indent false r rest
      else
        let (keyNode, keyStop) ←
          match key with
          | some k => ofLayout? directives false props k
          | none => empty? directives props props.stop start
        if key.any Layout.isBlockCollection then none
        let keyNode := keyNode.asKey directives.version
        let valueProps ← flowValueProps? keyStop indent sep value
        if valueProps.found.isNone && value.isSome then none
        if !isMap && implicit && !valueProps.found.all (pairKeyFits props sep) then none
        let (valueNode, stop) ←
          match value with
          | some v => (ofLayout? directives false valueProps v).map fun (n, stop) => (some n, stop)
          | none =>
            if valueProps.found.isSome then
              (empty? directives valueProps valueProps.stop (sep.getD [])).map fun (n, stop) =>
                (some n, stop)
            else some (none, valueProps.stop)
        if value.any Layout.isBlockCollection then none
        if isMap then
          if r.hasKey keyNode then none
          let r := { r with pairs := (keyNode, valueNode) :: r.pairs, offset := stop }
          flowEntries? directives isMap indent false r rest
        else
          let pair := map {} [(keyNode, valueNode)]
          flowEntries? directives isMap indent false
            { r with items := pair :: r.items, offset := stop } rest
termination_by structural l => l

end

end Node

end Yaml

end Seedbed
