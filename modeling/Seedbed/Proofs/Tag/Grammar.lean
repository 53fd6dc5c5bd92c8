import Seedbed.Tag

/-! The grammar of embedded tags, apart from any scanner:

    ${{ ws* DIRECTIVE ws* ( ws* KEY (ws* :- ws* DEFAULT)? ws* ) ws* }}

A spelling is a derivation in this grammar, with its tokens and the blanks around them. No text
begins with two spellings: neither the tokens nor the blanks nor the end can be chosen otherwise. -/

namespace Seedbed

namespace Tag

def IsWord (c : Char) : Prop :=
  ('a' ≤ c ∧ c ≤ 'z') ∨ ('A' ≤ c ∧ c ≤ 'Z') ∨ ('0' ≤ c ∧ c ≤ '9')

def IsKey (c : Char) : Prop := IsWord c ∨ c = '_' ∨ c = '-'

/-- Neither a quote nor a control character. -/
def IsQuoted (c : Char) : Prop := c ≠ '"' ∧ 0x1F < c.toNat ∧ c.toNat ≠ 0x7F

/-- The characters with the Unicode property White_Space. -/
def whiteSpace : List Char :=
  ['\t', '\n', '\x0B', '\x0C', '\r', ' ', '\u0085', '\u00A0', '\u1680',
   '\u2000', '\u2001', '\u2002', '\u2003', '\u2004', '\u2005', '\u2006', '\u2007', '\u2008',
   '\u2009', '\u200A', '\u2028', '\u2029', '\u202F', '\u205F', '\u3000']

def IsWhite (c : Char) : Prop := c ∈ whiteSpace

instance : DecidablePred IsWord := fun _ => inferInstanceAs (Decidable (_ ∨ _))

instance : DecidablePred IsKey := fun _ => inferInstanceAs (Decidable (_ ∨ _))

instance : DecidablePred IsQuoted := fun _ => inferInstanceAs (Decidable (_ ∧ _))

instance : DecidablePred IsWhite := fun _ => inferInstanceAs (Decidable (_ ∈ _))

abbrev Blanks := {cs : List Char // ∀ c ∈ cs, IsWhite c}

abbrev Token (P : Char → Prop) := {cs : List Char // cs ≠ [] ∧ ∀ c ∈ cs, P c}

inductive Default
  | word (w : Token IsWord)
  | quoted (inner : Token IsQuoted)

def Default.text : Default → List Char
  | word w => w.val
  | quoted inner => '"' :: (inner.val ++ ['"'])

structure Fallback where
  beforeMark : Blanks
  afterMark : Blanks
  value : Default

def Fallback.text (f : Fallback) : List Char :=
  f.beforeMark.val ++ ':' :: '-' :: (f.afterMark.val ++ f.value.text)

/-- A derivation of a tag. -/
structure Spelling where
  beforeDirective : Blanks
  directive : Token IsWord
  afterDirective : Blanks
  beforeKey : Blanks
  key : Token IsKey
  fallback : Option Fallback
  afterArguments : Blanks
  beforeClosing : Blanks

namespace Spelling

def fallbackText (s : Spelling) : List Char := (s.fallback.map Fallback.text).getD []

def afterKey (s : Spelling) : List Char :=
  s.fallbackText ++ (s.afterArguments.val ++ ')' :: (s.beforeClosing.val ++ ['}', '}']))

def text (s : Spelling) : List Char :=
  '$' :: '{' :: '{' :: (s.beforeDirective.val ++ (s.directive.val ++ (s.afterDirective.val ++
    '(' :: (s.beforeKey.val ++ (s.key.val ++ s.afterKey)))))

/-- The tag that is spelled. A quoted default keeps its quotes. -/
def tag (s : Spelling) : Tag where
  directive := .ofList s.directive.val
  key := .ofList s.key.val
  fallback := s.fallback.map fun f => .ofList f.value.text

end Spelling

def Begins (cs : List Char) : Prop := ∃ (s : Spelling) (rest : List Char), cs = s.text ++ rest

/-! ### Classes -/

theorem not_isKey_of_isWhite {c : Char} (h : IsWhite c) : ¬ IsKey c := by
  have hall : (whiteSpace.all fun d => decide (¬ IsKey d)) = true := by decide
  exact of_decide_eq_true (List.all_eq_true.1 hall c h)

theorem not_isWord_of_isWhite {c : Char} (h : IsWhite c) : ¬ IsWord c :=
  fun hw => not_isKey_of_isWhite h (.inl hw)

/-! ### Where a token ends -/

/-- The text does not go on with a character of the class. -/
def Stops (P : Char → Prop) (cs : List Char) : Prop := ∀ c ∈ cs.head?, ¬ P c

section stops

variable {P Q : Char → Prop} {c : Char} {x : List Char}

theorem stops_cons (h : ¬ P c) : Stops P (c :: x) := by
  intro d hd
  rw [List.head?_cons, Option.mem_some_iff] at hd
  exact hd ▸ h

theorem stops_blanks (b : Blanks) (hP : ∀ c, IsWhite c → ¬ P c) (hx : Stops P x) :
    Stops P (b.val ++ x) := by
  obtain ⟨cs, hb⟩ := b
  cases cs with
  | nil => exact hx
  | cons c cs => exact stops_cons (hP c (hb c (by simp)))

theorem stops_token (t : Token Q) (hQ : ∀ c, Q c → ¬ P c) : Stops P (t.val ++ x) := by
  obtain ⟨cs, hne, ht⟩ := t
  cases cs with
  | nil => exact absurd rfl hne
  | cons c cs => exact stops_cons (hQ c (ht c (by simp)))

theorem stops_default (v : Default) : Stops IsWhite (v.text ++ x) := by
  cases v with
  | word w => exact stops_token w fun _ hw hb => not_isWord_of_isWhite hb hw
  | quoted inner => exact stops_cons (by decide)

theorem stops_arguments (b : Blanks) : Stops IsKey (b.val ++ ')' :: x) :=
  stops_blanks b (fun _ => not_isKey_of_isWhite) (stops_cons (by decide))

theorem stops_afterKey (s : Spelling) : Stops IsKey (s.afterKey ++ x) := by
  unfold Spelling.afterKey Spelling.fallbackText
  cases s.fallback with
  | none =>
    simpa using stops_arguments s.afterArguments
  | some f =>
    simp only [Option.map_some, Option.getD_some, Fallback.text, List.append_assoc]
    exact stops_blanks _ (fun _ => not_isKey_of_isWhite)
      (stops_cons (by decide))

theorem stops_afterDirective (s : Spelling) : Stops IsWord (s.afterDirective.val ++ '(' :: x) :=
  stops_blanks _ (fun _ => not_isWord_of_isWhite) (stops_cons (by decide))

end stops

/-! ### Unique derivations -/

/-- Where two runs of one class stop, they are the same run. -/
theorem run_unique {P : Char → Prop} {a b x y : List Char} (ha : ∀ c ∈ a, P c) (hb : ∀ c ∈ b, P c)
    (hx : Stops P x) (hy : Stops P y) (h : a ++ x = b ++ y) : a = b ∧ x = y := by
  induction a generalizing b with
  | nil =>
    cases b with
    | nil => exact ⟨rfl, h⟩
    | cons d b =>
      rw [List.nil_append, List.cons_append] at h
      exact absurd (hb d (by simp)) (hx d (by simp [h]))
  | cons c a ih =>
    cases b with
    | nil =>
      rw [List.nil_append, List.cons_append] at h
      exact absurd (ha c (by simp)) (hy c (by simp [← h]))
    | cons d b =>
      rw [List.cons_append, List.cons_append, List.cons.injEq] at h
      obtain ⟨rfl, ht⟩ := h
      obtain ⟨rfl, e⟩ := ih (fun c hc => ha c (by simp [hc])) (fun c hc => hb c (by simp [hc])) ht
      exact ⟨rfl, e⟩

theorem blanks_unique {a b : Blanks} {x y : List Char} (hx : Stops IsWhite x)
    (hy : Stops IsWhite y) (h : a.val ++ x = b.val ++ y) : a = b ∧ x = y := by
  obtain ⟨e, ht⟩ := run_unique a.property b.property hx hy h
  exact ⟨Subtype.ext e, ht⟩

theorem token_unique {P : Char → Prop} {a b : Token P} {x y : List Char} (hx : Stops P x)
    (hy : Stops P y) (h : a.val ++ x = b.val ++ y) : a = b ∧ x = y := by
  obtain ⟨e, ht⟩ := run_unique a.property.2 b.property.2 hx hy h
  exact ⟨Subtype.ext e, ht⟩

theorem default_unique {v v' : Default} {x y : List Char} (hx : Stops IsWord x)
    (hy : Stops IsWord y) (h : v.text ++ x = v'.text ++ y) : v = v' ∧ x = y := by
  have hq : ¬ IsQuoted '"' := by decide
  -- a word does not begin with a quote
  have hw : ∀ (w : Token IsWord) z z', w.val ++ z ≠ '"' :: z' := by
    intro w z z' e
    have hs : Stops (· = '"') (w.val ++ z) := stops_token w fun c hc hcq => by
      subst hcq
      exact absurd hc (by decide)
    exact hs '"' (by simp [e]) rfl
  cases v with
  | word w =>
    cases v' with
    | word w' =>
      obtain ⟨rfl, e⟩ := token_unique hx hy h
      exact ⟨rfl, e⟩
    | quoted inner' => exact absurd h (hw w x _)
  | quoted inner =>
    cases v' with
    | word w' => exact absurd h.symm (hw w' y _)
    | quoted inner' =>
      simp only [Default.text, List.cons_append, List.append_assoc, List.nil_append,
        List.cons.injEq, true_and] at h
      obtain ⟨rfl, e⟩ := token_unique (stops_cons hq) (stops_cons hq) h
      exact ⟨rfl, (List.cons.inj e).2⟩

namespace Spelling

theorem afterKey_unique {s s' : Spelling} {x y : List Char}
    (h : s.afterKey ++ x = s'.afterKey ++ y) :
    s.fallback = s'.fallback ∧ s.afterArguments = s'.afterArguments ∧
      s.beforeClosing = s'.beforeClosing ∧ x = y := by
  have hclose : ¬ IsWhite ')' := by decide
  have hmark : ¬ IsWhite ':' := by decide
  have hbrace : ¬ IsWhite '}' := by decide
  -- what follows the fallback
  have tail : ∀ {a a' b b' : Blanks}, a.val ++ ')' :: (b.val ++ '}' :: '}' :: x) =
      a'.val ++ ')' :: (b'.val ++ '}' :: '}' :: y) → a = a' ∧ b = b' ∧ x = y := by
    intro a a' b b' h
    obtain ⟨ha, h₁⟩ := blanks_unique (stops_cons hclose) (stops_cons hclose) h
    obtain ⟨hb, h₂⟩ := blanks_unique (stops_cons hbrace) (stops_cons hbrace) (List.cons.inj h₁).2
    simp only [List.cons.injEq, true_and] at h₂
    exact ⟨ha, hb, h₂⟩
  unfold afterKey fallbackText at h
  cases hf : s.fallback with
  | none =>
    cases hf' : s'.fallback with
    | none =>
      simp only [hf, hf', Option.map_none, Option.getD_none, List.nil_append, List.append_assoc,
        List.cons_append] at h
      exact ⟨rfl, tail h⟩
    | some f' =>
      simp only [hf, hf', Option.map_none, Option.map_some, Option.getD_none, Option.getD_some,
        Fallback.text, List.nil_append, List.append_assoc, List.cons_append] at h
      obtain ⟨-, e⟩ := blanks_unique (stops_cons hclose) (stops_cons hmark) h
      exact absurd (List.cons.inj e).1 (by decide)
  | some f =>
    cases hf' : s'.fallback with
    | none =>
      simp only [hf, hf', Option.map_none, Option.map_some, Option.getD_none, Option.getD_some,
        Fallback.text, List.nil_append, List.append_assoc, List.cons_append] at h
      obtain ⟨-, e⟩ := blanks_unique (stops_cons hmark) (stops_cons hclose) h
      exact absurd (List.cons.inj e).1 (by decide)
    | some f' =>
      obtain ⟨a, b, v⟩ := f
      obtain ⟨a', b', v'⟩ := f'
      simp only [hf, hf', Option.map_some, Option.getD_some, Fallback.text, List.append_assoc,
        List.cons_append] at h
      have hword : ∀ (d : Blanks) z, Stops IsWord (d.val ++ ')' :: z) := fun d _ =>
        stops_blanks d (fun _ => not_isWord_of_isWhite) (stops_cons (by decide))
      obtain ⟨rfl, h₁⟩ := blanks_unique (stops_cons hmark) (stops_cons hmark) h
      simp only [List.cons.injEq, true_and] at h₁
      obtain ⟨rfl, h₂⟩ := blanks_unique (stops_default v) (stops_default v') h₁
      obtain ⟨rfl, h₃⟩ := default_unique (hword _ _) (hword _ _) h₂
      exact ⟨rfl, tail h₃⟩

/-- No text begins with two spellings. -/
theorem unique {s s' : Spelling} {x y : List Char} (h : s.text ++ x = s'.text ++ y) :
    s = s' ∧ x = y := by
  have hopen : ¬ IsWhite '(' := by decide
  have hword : ∀ c, IsWord c → ¬ IsWhite c := fun _ hw hb => not_isWord_of_isWhite hb hw
  have hkey : ∀ c, IsKey c → ¬ IsWhite c := fun _ hk hb => not_isKey_of_isWhite hb hk
  simp only [text, List.cons_append, List.append_assoc, List.cons.injEq, true_and] at h
  obtain ⟨h₁, h⟩ := blanks_unique (stops_token _ hword) (stops_token _ hword) h
  obtain ⟨h₂, h⟩ := token_unique (stops_afterDirective s) (stops_afterDirective s') h
  obtain ⟨h₃, h⟩ := blanks_unique (stops_cons hopen) (stops_cons hopen) h
  obtain ⟨h₄, h⟩ := blanks_unique (stops_token _ hkey) (stops_token _ hkey) (List.cons.inj h).2
  obtain ⟨h₅, h⟩ := token_unique (stops_afterKey s) (stops_afterKey s') h
  obtain ⟨h₆, h₇, h₈, e⟩ := afterKey_unique h
  cases s
  cases s'
  simp only [Spelling.mk.injEq]
  exact ⟨⟨h₁, h₂, h₃, h₄, h₅, h₆, h₇, h₈⟩, e⟩

end Spelling

end Tag

end Seedbed
