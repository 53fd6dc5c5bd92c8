import Seedbed.Proofs.Yaml.Row

/-! A file of one record that is a double-quoted scalar in one line. Between the quotes every
character but a quote, a backslash and a line break stands for itself, so the record is the text
between them, whatever else in YAML these characters mean. -/

namespace Seedbed

namespace Yaml

/-- A character that stands for itself between double quotes. -/
def IsVerbatim (c : Char) : Prop := c ≠ '"' ∧ c ≠ '\\' ∧ c ≠ '\n' ∧ c ≠ '\r'

section verbatim

variable {cs : List Char}

theorem doubleQuoted?_verbatim (h : ∀ c ∈ cs, IsVerbatim c) (rest : List Char) :
    doubleQuoted? (cs ++ '"' :: rest) = some (cs.length + 1) := by
  induction cs with
  | nil => rfl
  | cons c cs ih =>
    rw [List.forall_mem_cons] at h
    have hstep : doubleQuoted? (c :: (cs ++ '"' :: rest)) =
        (doubleQuoted? (cs ++ '"' :: rest)).map (· + 1) := by
      rw [doubleQuoted?.eq_def]
      split
      · cases ‹_ = []›
      · exact absurd (List.cons.inj ‹_›).1 h.1.2.1
      · exact absurd (List.cons.inj ‹_›).1 h.1.1
      · cases ‹_ = _ :: _›
        rfl
    rw [List.cons_append, hstep, ih h.2, Option.map_some, List.length_cons]

theorem brokenAt?_verbatim (h : ∀ c ∈ cs, IsVerbatim c) (least : Nat) (rest : List Char) :
    brokenAt? least cs.length (cs ++ rest) = none := by
  induction cs with
  | nil => cases rest <;> rfl
  | cons c cs ih =>
    rw [List.forall_mem_cons] at h
    have hbreak := lineBreak_of_ne h.1.2.2.1 h.1.2.2.2 (cs ++ rest)
    rw [List.cons_append, List.length_cons, brokenAt?, hbreak, ih h.2]
    simp [h.1.2.2.1]

/-- The scalar ends at the first quote after the opening one. -/
theorem quotedLength_verbatim (h : ∀ c ∈ cs, IsVerbatim c) (least : Nat) (rest : List Char) :
    quotedLength least ('"' :: (cs ++ '"' :: rest)) = cs.length + 2 := by
  have hbroken := brokenAt?_verbatim h least ('"' :: rest)
  simp [quotedLength, doubleQuoted?_verbatim h, hbroken]

theorem trimStart_quote (cs : List Char) : trimStart (cs ++ ['"']) = trimStart cs ++ ['"'] := by
  induction cs with
  | nil => rfl
  | cons c cs ih =>
    rw [trimStart, trimStart] at ih
    by_cases hc : isBlankOrTab c
    · simp [trimStart, List.dropWhile_cons_of_pos hc, ih]
    · simp [trimStart, List.dropWhile_cons_of_neg hc]

theorem takeWhile_quote (cs : List Char) :
    (cs ++ ['"']).takeWhile isBlankOrTab = cs.takeWhile isBlankOrTab := by
  induction cs with
  | nil => rfl
  | cons c cs ih =>
    by_cases hc : isBlankOrTab c
    · simp [List.takeWhile_cons_of_pos hc, ih]
    · simp [List.takeWhile_cons_of_neg hc]

theorem lineBreak_quote (h : ∀ c ∈ cs, IsVerbatim c) : lineBreak (cs ++ ['"']) = [] := by
  cases cs with
  | nil => rfl
  | cons c cs =>
    rw [List.forall_mem_cons] at h
    exact lineBreak_of_ne h.1.2.2.1 h.1.2.2.2 _

/-- Blanks are read together with what follows them, and any other character by itself. -/
theorem unescape?_cons {c : Char} (hc : IsVerbatim c) (h : ∀ c ∈ cs, IsVerbatim c) :
    unescape? (c :: (cs ++ ['"'])) =
      if isBlankOrTab c then
        (unescape? (trimStart cs ++ ['"'])).map (c :: cs.takeWhile isBlankOrTab ++ ·)
      else (unescape? (cs ++ ['"'])).map (c :: ·) := by
  obtain ⟨-, hslash, hn, hr⟩ := hc
  have hbreak := lineBreak_quote fun c hc => h c ((List.dropWhile_sublist isBlankOrTab).mem hc)
  rw [← trimStart] at hbreak
  rw [unescape?.eq_def]
  split
  · cases ‹_ = []›
  · simp at *
  · exact absurd (List.cons.inj ‹_›).1 hslash
  · cases ‹_ = _ :: _›
    simp [hn, hr, trimStart_quote, takeWhile_quote, hbreak]

theorem unescape?_verbatim (h : ∀ c ∈ cs, IsVerbatim c) : unescape? (cs ++ ['"']) = some cs := by
  -- blanks are read at once, so the induction is on the length
  induction hn : cs.length using Nat.strongRecOn generalizing cs with
  | _ n ih =>
    cases cs with
    | nil => simp [unescape?]
    | cons c cs =>
      rw [List.forall_mem_cons] at h
      rw [List.length_cons] at hn
      rw [List.cons_append, unescape?_cons h.1 h.2]
      split
      · have hlength := trimStart_length cs
        have htrim : ∀ c ∈ trimStart cs, IsVerbatim c := fun c hc =>
          h.2 c ((List.dropWhile_sublist isBlankOrTab).mem hc)
        rw [ih _ (by omega) htrim rfl, Option.map_some, List.cons_append, trimStart,
          List.takeWhile_append_dropWhile]
      · rw [ih _ (by omega) h.2 rfl, Option.map_some]

end verbatim

def quotedStart : List Char := ['k', ':', ' ']

def enclosed (cs : List Char) : List Char := '"' :: (cs ++ ['"'])

namespace Scan

variable {cs : List Char}

theorem run_key (n : Nat) (rest : List Char) :
    run (n + 3) .stream { rest := quotedStart ++ rest } =
      run n .document
        { rest := ':' :: ' ' :: rest, emitted := [⟨.text, ['k']⟩, ⟨.document, []⟩] } := by
  have first : step .stream { rest := quotedStart ++ rest } =
      some (.blockStart, { rest := quotedStart ++ rest, emitted := [⟨.document, []⟩] }) := rfl
  have second : step .blockStart
      { rest := quotedStart ++ rest, emitted := [⟨.document, []⟩] } =
      some (.document, { rest := quotedStart ++ rest, emitted := [⟨.document, []⟩] }) := rfl
  have key : step .document { rest := quotedStart ++ rest, emitted := [⟨.document, []⟩] } =
      some (.document,
        { rest := ':' :: ' ' :: rest, emitted := [⟨.text, ['k']⟩, ⟨.document, []⟩] }) := rfl
  have ne (c : Char) (cs : List Char) : c :: cs ≠ [] := List.cons_ne_nil c cs
  exact (run_step (ne _ _) first).trans ((run_step (ne _ _) second).trans (run_step (ne _ _) key))

theorem emit_lexeme {n : Nat} {s : Scan} {c : Char} {rest : List Char} {kind : Lexeme.Kind}
    (h : s.rest.take n = c :: rest) (hk : Lexeme.Kind.of? (c :: rest) = some kind) :
    emit n s =
      some ((), { s with rest := s.rest.drop n, emitted := ⟨kind, c :: rest⟩ :: s.emitted }) := by
  refine (bind_run (a := get) rfl).trans ?_
  rw [h]
  simp only [hk]
  refine (bind_run (a := liftM (some kind)) rfl).trans ?_
  rw [← h]
  rfl

theorem quotedScalar_enclosed (h : ∀ c ∈ cs, IsVerbatim c) (tail : List Char)
    (emitted : List Lexeme) (indent least : Nat) :
    quotedScalar { rest := enclosed cs ++ tail, emitted, indent, least } =
      some ((),
        { rest := tail, emitted := ⟨.quoted .double, enclosed cs⟩ :: emitted, indent, least }) := by
  have hlength : quotedLength least (enclosed cs ++ tail) = (enclosed cs).length := by
    simpa [enclosed] using quotedLength_verbatim h least tail
  show emit (quotedLength least (enclosed cs ++ tail)) _ = _
  rw [hlength]
  refine (emit_lexeme (List.take_left ..) rfl).trans ?_
  rw [List.drop_left]
  rfl

theorem step_quoted (h : ∀ c ∈ cs, IsVerbatim c) (tail : List Char) :
    step .document
      { rest := ':' :: ' ' :: (enclosed cs ++ tail)
        emitted := [⟨.text, ['k']⟩, ⟨.document, []⟩] } =
      some (.document,
        { rest := tail
          emitted := [⟨.quoted .double, enclosed cs⟩, ⟨.blank, [' ']⟩, ⟨.colon, [':']⟩,
            ⟨.text, ['k']⟩, ⟨.document, []⟩]
          least := 1 }) := by
  refine (bind_run (a := emitBlanks) (x := ()) rfl).trans ?_
  refine (bind_run rfl).trans ?_
  refine (bind_run (a := emitIndicators _) (x := ()) rfl).trans ?_
  refine (bind_run rfl).trans ?_
  exact (bind_run (quotedScalar_enclosed h tail _ 0 1)).trans rfl

end Scan

def quotedLexemes (cs tail : List Char) : List Lexeme :=
  [⟨.document, []⟩, ⟨.text, ['k']⟩, ⟨.colon, [':']⟩, ⟨.blank, [' ']⟩,
    ⟨.quoted .double, enclosed cs⟩] ++ tail.map fun c => ⟨.newline, [c]⟩

theorem lexemes?_quoted {cs tail : List Char} (h : ∀ c ∈ cs, IsVerbatim c)
    (ht : Scan.IsTail tail) :
    lexemes? (quotedStart ++ (enclosed cs ++ tail)) = some (quotedLexemes cs tail) := by
  obtain ⟨indent, least, hend⟩ := Scan.run_tail ht (3 * (enclosed cs ++ tail).length + 6)
    [⟨.quoted .double, enclosed cs⟩, ⟨.blank, [' ']⟩, ⟨.colon, [':']⟩, ⟨.text, ['k']⟩,
      ⟨.document, []⟩] 0 1
  have hfuel : 3 * (quotedStart ++ (enclosed cs ++ tail)).length + 3 =
      3 * (enclosed cs ++ tail).length + 6 + 2 + 1 + 3 := by
    rw [List.length_append, Nat.mul_add, Nat.add_comm (3 * _)]
    rfl
  have hvalue := Scan.run_step (n := 3 * (enclosed cs ++ tail).length + 6 + 2)
    (List.cons_ne_nil ':' (' ' :: (enclosed cs ++ tail))) (Scan.step_quoted h tail)
  rw [lexemes?, hfuel]
  refine Option.bind_eq_some_iff.2
    ⟨_, ((Scan.run_key _ (enclosed cs ++ tail)).trans hvalue).trans hend, ?_⟩
  rcases ht with rfl | rfl
  · rfl
  · rfl

/-! ### The document -/

def quotedLayout (cs tail : List Char) : Layout :=
  .scalar ⟨.quoted .double, 3, 0, enclosed cs⟩
    (tail.map fun c => ⟨.newline, 3 + units16 (enclosed cs), 0, [c]⟩)

def quotedSep : List Token := [colonToken 1 0, ⟨.blank, 2, 0, [' ']⟩]

def quotedFile (cs tail : List Char) : Layout :=
  .blockMap 0 0 [{
    key := some (keyLayout 0 0 ['k']), sep := some quotedSep
    value := some (quotedLayout cs tail) }]

theorem parts?_quoted (cs : List Char) {tail : List Char} (ht : Scan.IsTail tail) :
    parts? (quotedLexemes cs tail) = some [.document 0 [] (some (quotedFile cs tail)) []] := by
  rcases ht with rfl | rfl
  · rfl
  · rfl

def enclosedScalar (cs : List Char) : Scalar where
  value := .text (.ofList cs)
  text := cs
  style := .doubleQuoted

def quotedNode (cs : List Char) : Node := .scalar {} (enclosedScalar cs)

def quotedRoot (cs : List Char) : Node := .map {} [(plainNode ['k'], some (quotedNode cs))]

namespace Node

theorem inline?_quoted {props : Props} {t : Token} {trail : List Token} {stop : Nat}
    {text : List Char} (hk : t.kind = .quoted .double) (hl : label? {} props = some {})
    (htrail : trailStop? t.stop true trail = some stop) (ht : doubleQuotedText? t.chars = some text) :
    inline? {} props t trail = some (quotedNode text, stop) := by
  simp only [inline?, htrail, hk, ht, hl, Option.bind_eq_bind, Option.bind_some]
  rfl

theorem ofLayout?_quotedLayout {cs : List Char} (h : ∀ c ∈ cs, IsVerbatim c) {tail : List Char}
    (ht : Scan.IsTail tail) {props : Props} (hl : label? {} props = some {}) :
    ∃ stop, ofLayout? {} false props (quotedLayout cs tail) =
      some (quotedNode cs, stop) := by
  have htext : doubleQuotedText? (enclosed cs) = some cs := unescape?_verbatim h
  rcases ht with rfl | rfl
  · exact ⟨_, inline?_quoted rfl hl rfl htext⟩
  · exact ⟨_, inline?_quoted rfl hl rfl htext⟩

theorem ofLayout?_quoted {cs : List Char} (h : ∀ c ∈ cs, IsVerbatim c) {tail : List Char}
    (ht : Scan.IsTail tail) : ∃ stop, ofLayout? {} true { start := 0, stop := 0 }
      (quotedFile cs tail) = some (quotedRoot cs, stop) := by
  have hkey : keyProps? 0 0 [] (some (keyLayout 0 0 ['k'])) (some quotedSep) =
      some { start := 0, stop := 0 } := rfl
  have hvalue : valueProps? 0 1 (some (keyLayout 0 0 ['k'])) (some quotedSep)
      (some (quotedLayout cs tail)) =
        some { found := some (colonToken 1 0), start := 3, stop := 3 } := rfl
  obtain ⟨stop, hnode⟩ : ∃ stop, ofLayout? {} false
      { found := some (colonToken 1 0), start := 3, stop := 3 } (quotedLayout cs tail) =
        some (quotedNode cs, stop) := ofLayout?_quotedLayout h ht rfl
  exact ⟨stop, ofLayout?_single rfl hkey rfl rfl rfl rfl rfl hvalue rfl rfl hnode⟩

end Node

theorem read?_quoted {cs : List Char} (h : ∀ c ∈ cs, IsVerbatim c) {tail : List Char}
    (ht : Scan.IsTail tail) :
    Document.read? (.ofList (quotedStart ++ (enclosed cs ++ tail))) =
      some { root := some (quotedRoot cs) } := by
  obtain ⟨stop, hroot⟩ := Node.ofLayout?_quoted h ht
  exact read?_of_layout (lexemes?_quoted h ht) (parts?_quoted cs ht) rfl hroot

/-- The record of the file is the text between the quotes. -/
theorem records_quoted {cs : List Char} (h : ∀ c ∈ cs, IsVerbatim c) {tail : List Char}
    (ht : Scan.IsTail tail) :
    records (.ofList (quotedStart ++ (enclosed cs ++ tail))) =
      .ok (.ofList [("k", .text (.ofList cs))]) := by
  have hroot : Linked.ofRoot (quotedRoot cs) =
      .map none {} [(plainLinked ['k'], some (.scalar none {} (enclosedScalar cs)))] := rfl
  simp only [records, read?_quoted h ht, rootRecords, hroot]
  rfl

end Yaml

end Seedbed
