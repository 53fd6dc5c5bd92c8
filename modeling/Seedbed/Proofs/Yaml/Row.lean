import Seedbed.Proofs.Yaml.Plain
import Seedbed.Yaml.Records

/-! A file of one record with one field whose value is a plain scalar. The record is read with the
value that the scalar has by its characters. -/

namespace Seedbed

namespace Yaml

/-- A character that no lexeme but a scalar holds, and no end of one. -/
def IsInner (c : Char) : Prop := c.isAlphanum ∨ c = '+' ∨ c = '-' ∨ c = '.'

instance : DecidablePred IsInner := fun _ => inferInstanceAs (Decidable (_ ∨ _))

theorem IsInner.ne {c d : Char} (h : IsInner c) (hd : ¬IsInner d) : c ≠ d := by
  rintro rfl
  exact hd h

theorem IsInner.isEmpty {c : Char} (h : IsInner c) : isEmpty (some c) = false := by
  unfold Yaml.isEmpty
  split
  · cases ‹some c = none›
  all_goals first
    | exact absurd (Option.some.inj ‹_›) (h.ne (by decide))
    | rfl

theorem lineBreak_of_ne {c : Char} (hn : c ≠ '\n') (hr : c ≠ '\r') (rest : List Char) :
    lineBreak (c :: rest) = [] := by
  unfold lineBreak
  split
  · exact absurd (List.cons.inj ‹_›).1 hn
  · exact absurd (List.cons.inj ‹_›).1 hr
  · rfl

theorem IsInner.lineBreak {c : Char} (h : IsInner c) (rest : List Char) :
    lineBreak (c :: rest) = [] := lineBreak_of_ne (h.ne (by decide)) (h.ne (by decide)) rest

/-- A letter or a digit, after a sign or not, and then letters, digits, signs and points. -/
structure Simple (cs : List Char) : Prop where
  inner : ∀ c ∈ cs, IsInner c
  begins : ∃ c rest, cs = c :: rest ∧
    (c.isAlphanum ∨ c = '-' ∧ ∃ d ∈ rest.head?, d.isAlphanum)

def rowStart : List Char := ['r', 'o', 'w', ':', '\n', ' ', ' ', 'f', ':', ' ']

namespace Scan

theorem run_step {n : Nat} {mode mode' : Mode} {s s' : Scan} (h : s.rest ≠ [])
    (hs : step mode s = some (mode', s')) : run (n + 1) mode s = run n mode' s' := by
  have hrun : run (n + 1) mode s = (if s.rest = [] then pure () else step mode >>= run n) s := rfl
  rw [hrun, if_neg h]
  exact congrArg (Option.bind · fun (p : Mode × Scan) => run n p.1 p.2) hs

theorem plainLength_inner {least : Nat} {cs tail : List Char} {n : Nat} (h : ∀ c ∈ cs, IsInner c) :
    plainLength least false n n (cs ++ tail) =
      plainLength least false (n + cs.length) (n + cs.length) tail := by
  induction cs generalizing n with
  | nil => rfl
  | cons c cs ih =>
    have hc := h c List.mem_cons_self
    have hstep : plainLength least false n n (c :: (cs ++ tail)) =
        plainLength least false (n + 1) (n + 1) (cs ++ tail) := by
      rw [plainLength.eq_def]
      split
      · cases ‹c :: (cs ++ tail) = []›
      · exact absurd (List.cons.inj ‹_›).1 (hc.ne (by decide))
      · exact absurd (List.cons.inj ‹_›).1 (hc.ne (by decide))
      · rename_i c' rest _ _ heq
        cases heq
        rw [if_neg (by rw [hc.isEmpty]; exact Bool.false_ne_true)]
        rfl
    rw [List.cons_append, hstep, ih fun c hc => h c (List.mem_cons_of_mem _ hc), List.length_cons,
      Nat.add_right_comm, Nat.add_assoc]

/-! ### Steps -/

section steps

variable {cs : List Char} {emitted : List Lexeme}

def IsTail (tail : List Char) : Prop := tail = [] ∨ tail = ['\n']

theorem IsTail.not_mem {tail : List Char} (h : IsTail tail) : '$' ∉ tail := by
  rcases h with rfl | rfl
  · exact List.not_mem_nil
  · exact (show '$' ∉ ['\n'] by decide)

def keyLexemes : List Lexeme :=
  [⟨.text, ['f']⟩, ⟨.blank, [' ', ' ']⟩, ⟨.newline, ['\n']⟩, ⟨.colon, [':']⟩,
    ⟨.text, ['r', 'o', 'w']⟩, ⟨.document, []⟩]

theorem run_keys (n : Nat) (rest : List Char) :
    run (n + 6) .stream { rest := rowStart ++ rest } =
      run n .document
        { rest := ':' :: ' ' :: rest, emitted := keyLexemes, indent := 2, least := 1 } := by
  let all := rowStart ++ rest
  have first : step .stream { rest := all } =
      some (.blockStart, { rest := all, emitted := keyLexemes.drop 5 }) := rfl
  have second : step .blockStart { rest := all, emitted := keyLexemes.drop 5 } =
      some (.document, { rest := all, emitted := keyLexemes.drop 5 }) := rfl
  have row : step .document { rest := all, emitted := keyLexemes.drop 5 } =
      some (.document, { rest := all.drop 3, emitted := keyLexemes.drop 4 }) := rfl
  have line : step .document { rest := all.drop 3, emitted := keyLexemes.drop 4 } =
      some (.blockStart,
        { rest := all.drop 7, emitted := keyLexemes.drop 1, indent := 2, least := 1 }) := rfl
  have third : step .blockStart
      { rest := all.drop 7, emitted := keyLexemes.drop 1, indent := 2, least := 1 } =
      some (.document,
        { rest := all.drop 7, emitted := keyLexemes.drop 1, indent := 2, least := 1 }) := rfl
  have field : step .document
      { rest := all.drop 7, emitted := keyLexemes.drop 1, indent := 2, least := 1 } =
      some (.document,
        { rest := all.drop 8, emitted := keyLexemes, indent := 2, least := 1 }) := rfl
  have ne (c : Char) (cs : List Char) : c :: cs ≠ [] := List.cons_ne_nil c cs
  exact (run_step (ne _ _) first).trans ((run_step (ne _ _) second).trans
    ((run_step (ne _ _) row).trans ((run_step (ne _ _) line).trans
    ((run_step (ne _ _) third).trans (run_step (ne _ _) field)))))

theorem bind_run {α β : Type} {a : Scanner α} {f : α → Scanner β} {s s' : Scan} {x : α}
    (h : a s = some (x, s')) : (a >>= f) s = f x s' :=
  congrArg (Option.bind · fun (p : α × Scan) => f p.1 p.2) h

theorem emitBlanks_space {c : Char} {rest : List Char} (hc : IsInner c) (emitted : List Lexeme)
    (indent least : Nat) :
    emitBlanks { rest := ' ' :: c :: rest, emitted, indent, least } =
      some ((), { rest := c :: rest, emitted := ⟨.blank, [' ']⟩ :: emitted, indent, least }) := by
  have hblank : ¬isBlankOrTab c := by
    rw [isBlankOrTab, decide_eq_false (hc.ne (by decide)), decide_eq_false (hc.ne (by decide))]
    exact Bool.false_ne_true
  have hspan : (' ' :: c :: rest).takeWhile isBlankOrTab = [' '] := by
    rw [List.takeWhile_cons_of_pos rfl, List.takeWhile_cons_of_neg hblank]
  have hrun : emitBlanks { rest := ' ' :: c :: rest, emitted, indent, least } =
      discard (do
        emit ((' ' :: c :: rest).takeWhile isBlankOrTab).length
        return ((' ' :: c :: rest).takeWhile isBlankOrTab).length : Scanner Nat)
        { rest := ' ' :: c :: rest, emitted, indent, least } := rfl
  rw [hrun, hspan]
  rfl

theorem emitIndicators_inner {c : Char} {rest : List Char} (hc : IsInner c)
    (hnext : c = '-' → isEmpty rest.head? = false) (n : Nat) (emitted : List Lexeme)
    (indent least : Nat) :
    emitIndicators (n + 1) { rest := c :: rest, emitted, indent, least } =
      some ((), { rest := c :: rest, emitted, indent, least }) := by
  have hbang : c = '!' → False := hc.ne (by decide)
  have hamp : c = '&' → False := hc.ne (by decide)
  have hpeek : (c :: rest)[1]? = rest.head? := by
    cases rest with
    | nil | cons _ _ => rfl
  have hmark : ((decide (c = '-') || decide (c = '?') || decide (c = ':')) && isEmpty rest.head?) =
      false := by
    rw [decide_eq_false (hc.ne (by decide) : c ≠ '?'),
      decide_eq_false (hc.ne (by decide) : c ≠ ':')]
    by_cases hdash : c = '-'
    · rw [hnext hdash, Bool.and_false]
    · rw [decide_eq_false hdash]
      rfl
  rw [emitIndicators]
  refine (bind_run (x := some c) rfl).trans ?_
  simp only
  refine (bind_run (x := rest.head?) (congrArg (fun x => some (x, _)) hpeek)).trans ?_
  refine (bind_run rfl).trans ?_
  have hif : ((decide (c = '-') || decide (c = '?') || decide (c = ':')) &&
      (isEmpty rest.head? || decide (0 < 0) && isFlowMark rest.head?)) = false := by
    rw [decide_eq_false (Nat.lt_irrefl 0), Bool.false_and, Bool.or_false, hmark]
  rw [if_neg (by rw [hif]; exact Bool.false_ne_true)]
  rfl

theorem emitIndicators_colon {c : Char} {rest : List Char} (hc : IsInner c)
    (hnext : c = '-' → isEmpty rest.head? = false) (n : Nat) (emitted : List Lexeme)
    (indent least : Nat) :
    emitIndicators (n + 2) { rest := ':' :: ' ' :: c :: rest, emitted, indent, least } =
      some ((),
        { rest := c :: rest
          emitted := ⟨.blank, [' ']⟩ :: ⟨.colon, [':']⟩ :: emitted
          indent
          least := indent + 1 }) := by
  have hrun : emitIndicators (n + 2) { rest := ':' :: ' ' :: c :: rest, emitted, indent, least } =
      (emitBlanks >>= fun _ => emitIndicators (n + 1))
        { rest := ' ' :: c :: rest
          emitted := ⟨.colon, [':']⟩ :: emitted
          indent
          least := indent + 1 } := rfl
  rw [hrun]
  exact (bind_run (emitBlanks_space hc _ _ _)).trans (emitIndicators_inner hc hnext n _ _ _)

/-- A plain scalar at the end of the text reaches up to the line break. -/
theorem plainLength_simple (h : ∀ c ∈ cs, IsInner c) {tail : List Char} (ht : IsTail tail) :
    plainLength 3 false 0 0 (cs ++ tail) = cs.length := by
  rw [plainLength_inner h, Nat.zero_add]
  rcases ht with rfl | rfl
  · rfl
  · rfl

theorem step_value (h : Simple cs) {tail : List Char} (ht : IsTail tail) :
    step .document
      { rest := ':' :: ' ' :: (cs ++ tail), emitted := keyLexemes, indent := 2, least := 1 } =
      some (.document,
        { rest := tail
          emitted := ⟨.text, cs⟩ :: ⟨.blank, [' ']⟩ :: ⟨.colon, [':']⟩ :: keyLexemes
          indent := 2
          least := 3 }) := by
  have hlength := plainLength_simple h.inner ht
  obtain ⟨c, rest, rfl, hc⟩ := h.begins
  have hinner := h.inner c List.mem_cons_self
  have hnext : c = '-' → isEmpty (rest ++ tail).head? = false := by
    rintro rfl
    obtain hd | ⟨-, d, hd, halnum⟩ := hc
    · cases hd
    · rw [List.head?_append, hd]
      exact IsInner.isEmpty (.inl halnum)
  have hend : ¬isLineEnd (c :: (rest ++ tail)) := by
    rw [isLineEnd, hinner.lineBreak]
    exact Bool.false_ne_true
  refine (bind_run (a := emitBlanks) (x := ()) rfl).trans ?_
  refine (bind_run rfl).trans ?_
  refine (bind_run (emitIndicators_colon hinner hnext _ _ _ _)).trans ?_
  refine (bind_run rfl).trans ?_
  rw [if_neg hend, List.head?_cons]
  -- no character with a meaning of its own begins the value
  have hne (d : Char) (hd : ¬IsInner d) (h : some c = some d) : False :=
    hinner.ne hd (Option.some.inj h)
  have h₁ := hne '#' (by decide)
  have h₂ := hne '{' (by decide)
  have h₃ := hne '[' (by decide)
  have h₄ := hne '}' (by decide)
  have h₅ := hne ']' (by decide)
  have h₆ := hne '*' (by decide)
  have h₇ := hne '"' (by decide)
  have h₈ := hne '\'' (by decide)
  have h₉ := hne '|' (by decide)
  have h₁₀ := hne '>' (by decide)
  simp only
  refine (bind_run (a := plainScalar) (x := ()) ?_).trans rfl
  show emitAs .text (plainLength 3 false 0 0 (c :: rest ++ tail))
    { rest := c :: rest ++ tail, emitted := _, indent := 2, least := 3 } = _
  rw [hlength]
  show some ((), Scan.mk ((c :: rest ++ tail).drop (c :: rest).length)
    (⟨.text, (c :: rest ++ tail).take (c :: rest).length⟩ :: _) 2 3 0 false) = _
  rw [List.take_left, List.drop_left]

theorem run_tail {tail : List Char} (ht : IsTail tail) (n : Nat) (emitted : List Lexeme)
    (indent least : Nat) : ∃ indent' least',
    run (n + 2) .document { rest := tail, emitted, indent, least } = some ((),
      { rest := []
        emitted := tail.map (fun c => ⟨.newline, [c]⟩) ++ emitted
        indent := indent'
        least := least' }) := by
  rcases ht with rfl | rfl
  · exact ⟨_, _, rfl⟩
  · exact ⟨_, _, rfl⟩

end steps

end Scan

def rowLexemes (cs tail : List Char) : List Lexeme :=
  [⟨.document, []⟩, ⟨.text, ['r', 'o', 'w']⟩, ⟨.colon, [':']⟩, ⟨.newline, ['\n']⟩,
    ⟨.blank, [' ', ' ']⟩, ⟨.text, ['f']⟩, ⟨.colon, [':']⟩, ⟨.blank, [' ']⟩, ⟨.text, cs⟩] ++
    tail.map fun c => ⟨.newline, [c]⟩

theorem lexemes?_row {cs tail : List Char} (h : Simple cs) (ht : Scan.IsTail tail) :
    lexemes? (rowStart ++ (cs ++ tail)) =
      some (rowLexemes cs tail) := by
  obtain ⟨indent, least, hend⟩ := Scan.run_tail ht (3 * (cs ++ tail).length + 24)
    (⟨.text, cs⟩ :: ⟨.blank, [' ']⟩ :: ⟨.colon, [':']⟩ :: Scan.keyLexemes) 2 3
  have hfuel : 3 * (rowStart ++ (cs ++ tail)).length + 3 =
      3 * (cs ++ tail).length + 24 + 2 + 1 + 6 := by
    rw [List.length_append, Nat.mul_add, Nat.add_comm (3 * _)]
    rfl
  have hvalue := Scan.run_step (n := 3 * (cs ++ tail).length + 24 + 2)
    (List.cons_ne_nil ':' (' ' :: (cs ++ tail))) (Scan.step_value h ht)
  rw [lexemes?, hfuel]
  refine Option.bind_eq_some_iff.2
    ⟨_, ((Scan.run_keys _ (cs ++ tail)).trans hvalue).trans hend, ?_⟩
  rcases ht with rfl | rfl
  · rfl
  · rfl

/-! ### The document -/

def keyLayout (offset indent : Nat) (chars : List Char) : Layout :=
  .scalar ⟨.text, offset, indent, chars⟩ []

def colonToken (offset indent : Nat) : Token := ⟨.colon, offset, indent, [':']⟩

def valueLayout (cs tail : List Char) : Layout :=
  .scalar ⟨.text, 10, 2, cs⟩ (tail.map fun c => ⟨.newline, 10 + units16 cs, 2, [c]⟩)

def fieldSep : List Token := [colonToken 8 2, ⟨.blank, 9, 2, [' ']⟩]

def fieldLayout (cs tail : List Char) : Layout :=
  .blockMap 7 2 [{
    key := some (keyLayout 7 2 ['f']), sep := some fieldSep, value := some (valueLayout cs tail) }]

def rowSep : List Token := [colonToken 3 0, ⟨.newline, 4, 0, ['\n']⟩, ⟨.blank, 5, 0, [' ', ' ']⟩]

def rowLayout (cs tail : List Char) : Layout :=
  .blockMap 0 0 [{
    key := some (keyLayout 0 0 ['r', 'o', 'w']), sep := some rowSep
    value := some (fieldLayout cs tail) }]

theorem parts?_row (cs : List Char) {tail : List Char} (ht : Scan.IsTail tail) :
    parts? (rowLexemes cs tail) = some [.document 0 [] (some (rowLayout cs tail)) []] := by
  rcases ht with rfl | rfl
  · rfl
  · rfl

def plainNode (cs : List Char) : Node :=
  .scalar {} { value := Scalar.plainValue .v1_2 cs, text := cs, style := .plain }

theorem isMergeMark_plainValue (version : Version) (cs : List Char) :
    Scalar.isMergeMark (Scalar.plainValue version cs) = false := by
  unfold Scalar.plainValue
  split
  · rfl
  · split <;> rfl

def rowRoot (cs : List Char) : Node :=
  .map {} [(plainNode ['r', 'o', 'w'], some (.map {} [(plainNode ['f'], some (plainNode cs))]))]

namespace Node

theorem ofLayout?_single {directives : Directives} {atRoot : Bool}
    {props keyProps valueProps : Props}
    {offset indent keyStop stop : Nat} {key value : Layout} {sep : List Token} {found : Token}
    {keyNode valueNode : Node} (hlabel : label? directives props = some {})
    (hkeyProps : keyProps? indent offset [] (some key) (some sep) = some keyProps)
    (hkeyFound : keyProps.found = none) (hkeyLine : keyProps.newlineAfter = none)
    (hfits : implicitKeyFits indent (some key)) (hline : key.hasNewline = false)
    (hkey : ofLayout? directives false keyProps key = some (keyNode, keyStop))
    (hvalueProps : valueProps? indent keyStop (some key) (some sep) (some value) = some valueProps)
    (hfound : valueProps.found = some found)
    (hvalueFits : implicitValueFits keyProps valueProps found (some value))
    (hvalue : ofLayout? directives false valueProps value = some (valueNode, stop)) :
    ofLayout? directives atRoot props (.blockMap offset indent
      [{ key := some key, sep := some sep, value := some value }]) =
        some (.map {} [(keyNode.asKey directives.version, some valueNode)], stop) := by
  simp [ofLayout?, mapEntries?, hlabel, hkeyProps, hkeyFound, hkeyLine, hfits, hline, hkey,
    hvalueProps, hfound, hvalueFits, hvalue]
  rfl

theorem inline?_text {props : Props} {t : Token} {trail : List Token} {stop : Nat}
    {text : List Char} (hk : t.kind = .text) (hl : label? {} props = some {})
    (htrail : trailStop? t.stop true trail = some stop) (ht : plainText? t.chars = some text) :
    inline? {} props t trail = some (plainNode text, stop) := by
  have hscalar : scalarOf? .v1_2 {} .plain text = some (plainNode text) := by
    simp [scalarOf?, plainNode, isMergeMark_plainValue]
  simp only [inline?, htrail, hk, ht, hl, hscalar, Option.bind_eq_bind, Option.bind_some]
  rfl

theorem ofLayout?_value {cs : List Char} (h : plainText? cs = some cs) {tail : List Char}
    (ht : Scan.IsTail tail) {props : Props} (hl : label? {} props = some {}) :
    ∃ stop, ofLayout? {} false props (valueLayout cs tail) =
      some (plainNode cs, stop) := by
  rcases ht with rfl | rfl
  · exact ⟨_, inline?_text rfl hl rfl h⟩
  · exact ⟨_, inline?_text rfl hl rfl h⟩

theorem ofLayout?_row {cs : List Char} (h : plainText? cs = some cs) {tail : List Char}
    (ht : Scan.IsTail tail) : ∃ stop, ofLayout? {} true { start := 0, stop := 0 }
      (rowLayout cs tail) = some (rowRoot cs, stop) := by
  have hfieldKey : keyProps? 2 7 [] (some (keyLayout 7 2 ['f'])) (some fieldSep) =
      some { start := 7, stop := 7 } := rfl
  have hfieldValue : valueProps? 2 8 (some (keyLayout 7 2 ['f'])) (some fieldSep)
      (some (valueLayout cs tail)) =
        some { found := some (colonToken 8 2), start := 10, stop := 10 } := rfl
  have hrowKey : keyProps? 0 0 [] (some (keyLayout 0 0 ['r', 'o', 'w'])) (some rowSep) =
      some { start := 0, stop := 0 } := rfl
  have hrowValue : valueProps? 0 3 (some (keyLayout 0 0 ['r', 'o', 'w'])) (some rowSep)
      (some (fieldLayout cs tail)) =
        some { found := some (colonToken 3 0), hasNewline := true, start := 7, stop := 7 } := rfl
  obtain ⟨stop, hvalue⟩ : ∃ stop, ofLayout? {} false
      { found := some (colonToken 8 2), start := 10, stop := 10 } (valueLayout cs tail) =
        some (plainNode cs, stop) := ofLayout?_value h ht rfl
  have hfield : ofLayout? {} false
      { found := some (colonToken 3 0), hasNewline := true, start := 7, stop := 7 }
      (fieldLayout cs tail) = some (.map {} [(plainNode ['f'], some (plainNode cs))], stop) :=
    ofLayout?_single rfl hfieldKey rfl rfl rfl rfl rfl hfieldValue rfl rfl hvalue
  exact ⟨stop, ofLayout?_single rfl hrowKey rfl rfl rfl rfl rfl hrowValue rfl rfl hfield⟩

end Node

/-- A simple text is a plain scalar in one line. -/
theorem plainText?_simple {cs : List Char} (h : Simple cs) : plainText? cs = some cs := by
  have hbegin : cs.head?.any badStarts.contains = false := by
    obtain ⟨c, rest, rfl, -⟩ := h.begins
    rw [List.head?_cons, Option.any_some, List.contains_eq_mem, decide_eq_false_iff_not]
    intro hmem
    have hbad : badStarts.any (fun c => decide (IsInner c)) = false := by decide
    exact List.any_eq_false.1 hbad c hmem (decide_eq_true (h.inner c List.mem_cons_self))
  have hline : cs.splitOn '\n' = [cs] :=
    List.splitOnP_eq_singleton fun c hc => beq_eq_false_iff_ne.2 ((h.inner c hc).ne (by decide))
  rw [plainText?, hbegin, foldLines, hline]
  rfl

theorem read?_of_layout {cs : List Char} {lexemes : List Lexeme} {l : Layout} {root : Node}
    {stop : Nat} (hlexemes : lexemes? cs = some lexemes)
    (hparts : parts? lexemes = some [.document 0 [] (some l) []])
    (hprops : Props.read? { indicator := .documentStart, next := .of (some l) [], offset := 0
                            indent := 0, atNewline := true } [] = some { start := 0, stop := 0 })
    (hroot : Node.ofLayout? {} true { start := 0, stop := 0 } l = some (root, stop)) :
    Document.read? (.ofList cs) = some { root := some root } := by
  have hread : Document.root? {} 0 [] (some l) [] =
      some (root, { start := 0, stop := 0 }) := by
    rw [Document.root?, hprops]
    simp only [Option.bind_eq_bind, Option.bind_some, hroot]
    rfl
  rw [Document.read?, String.toList_ofList, hlexemes]
  simp only [Option.bind_eq_bind, Option.bind_some, hparts, List.foldlM_cons, List.foldlM_nil,
    Document.Reading.add?, hread]
  rfl

theorem read?_row {cs : List Char} (h : Simple cs) {tail : List Char} (ht : Scan.IsTail tail) :
    Document.read? (.ofList (rowStart ++ (cs ++ tail))) = some { root := some (rowRoot cs) } := by
  obtain ⟨stop, hroot⟩ := Node.ofLayout?_row (plainText?_simple h) ht
  exact read?_of_layout (lexemes?_row h ht) (parts?_row cs ht) rfl hroot

theorem fieldsOf_field {α : Type} (v : α) : fieldsOf [("f", v)] = [("f", v)] := by
  have hposition : position? "f" = none := by decide
  simp [fieldsOf, arrange, positioned, putEntry, hposition]

def plainLinked (cs : List Char) : Linked :=
  .scalar none {} { value := Scalar.plainValue .v1_2 cs, text := cs, style := .plain }

/-- A plain scalar of version 1.2 is no object. -/
theorem scalar_plainValue (cs : List Char) : Evaluation.scalar none (Scalar.plainValue .v1_2 cs) =
    pure (.value (Scalar.plainValue .v1_2 cs)) := by
  unfold Scalar.plainValue
  split
  · rfl
  · split
    · rfl
    · rfl
    · rfl
    · next hinstant _ _ _ => cases hinstant
    · rfl

theorem record_row (nodes : Linked.Nodes) (cs : List Char) :
    record .v1_2 nodes (plainLinked ['r', 'o', 'w'],
        some (.map none {} [(plainLinked ['f'], some (plainLinked cs))])) =
      .ok ("row", .record [("f", Scalar.plainValue .v1_2 cs)]) := by
  have hrun (a : Evaluation.Access) :
      (Evaluation.ofLinked a (.map none {} [(plainLinked ['f'], some (plainLinked cs))])).run.run {} =
        (.ok (.object 0), { heap := [(0, .record (fieldsOf [("f", .value
          (Scalar.plainValue .v1_2 cs))]))], objects := 1 }) := by
    simp only [Evaluation.ofLinked, Evaluation.ofPairs, plainLinked, scalar_plainValue]
    rfl
  have hvalue : (Linked.map none {} [(plainLinked ['f'], some (plainLinked cs))]).value .v1_2 nodes =
      .ok (.record [("f", Scalar.plainValue .v1_2 cs)]) := by
    rw [Linked.value, hrun, fieldsOf_field]
    rfl
  have hlabel : (Scalar.plainValue .v1_2 ['r', 'o', 'w']).toText = "row" := rfl
  simp only [record, plainLinked] at hvalue ⊢
  rw [hvalue, hlabel]

/-- The record of the file has the value of its plain scalar. -/
theorem records_row {cs : List Char} (h : Simple cs) {tail : List Char} (ht : Scan.IsTail tail) :
    records (.ofList (rowStart ++ (cs ++ tail))) =
      .ok (.ofList [("row", .record [("f", Scalar.plainValue .v1_2 cs)])]) := by
  have hroot : Linked.ofRoot (rowRoot cs) = .map none {} [(plainLinked ['r', 'o', 'w'],
      some (.map none {} [(plainLinked ['f'], some (plainLinked cs))]))] := rfl
  simp only [records, read?_row h ht, rootRecords, hroot, List.mapM_cons, record_row]
  rfl

end Yaml

end Seedbed
