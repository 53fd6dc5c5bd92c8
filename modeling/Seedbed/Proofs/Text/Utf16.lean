import Seedbed.Text.Units

/-! A text in UTF-16. The units of one character never begin those of another one, and a unit that
stands for a character of its own is never the second half of a pair, so an ASCII character found
among the units of a text is one of its characters. -/

namespace Seedbed

def utf16 (cs : List Char) : List Nat := cs.flatMap codeUnits

@[simp] theorem utf16_nil : utf16 [] = [] := rfl

@[simp] theorem utf16_cons (c : Char) (cs : List Char) :
    utf16 (c :: cs) = codeUnits c ++ utf16 cs := rfl

@[simp] theorem utf16_append (a b : List Char) : utf16 (a ++ b) = utf16 a ++ utf16 b := by
  simp [utf16]

@[simp] theorem length_utf16 (cs : List Char) : (utf16 cs).length = units16 cs := by
  induction cs with
  | nil => rfl
  | cons c cs ih => rw [utf16_cons, List.length_append, length_codeUnits, ih, units16_cons]

/-- A character is one unit below the surrogates or above them, or it is a pair of surrogates. -/
theorem codeUnits_cases (c : Char) :
    (codeUnits c = [c.toNat] ∧ (c.toNat < 0xD800 ∨ 0xDFFF < c.toNat)) ∨
    (codeUnits c = [0xD800 + (c.toNat - 0x10000) / 1024, 0xDC00 + (c.toNat - 0x10000) % 1024] ∧
      0x10000 ≤ c.toNat ∧ c.toNat < 0x110000) := by
  have hv : c.toNat < 0xD800 ∨ (0xDFFF < c.toNat ∧ c.toNat < 0x110000) := c.valid
  simp only [codeUnits]
  split
  · left
    exact ⟨rfl, by omega⟩
  · right
    exact ⟨rfl, by omega, by omega⟩

theorem codeUnits_append_inj {c d : Char} {x y : List Nat}
    (h : codeUnits c ++ x = codeUnits d ++ y) : c = d ∧ x = y := by
  have hc : c.toNat = d.toNat → c = d := Char.toNat_inj.1
  rcases codeUnits_cases c with ⟨ec, bc⟩ | ⟨ec, bc⟩ <;>
    rcases codeUnits_cases d with ⟨ed, bd⟩ | ⟨ed, bd⟩ <;>
    rw [ec, ed] at h <;>
    simp only [List.cons_append, List.nil_append, List.cons.injEq] at h
  · exact ⟨hc h.1, h.2⟩
  · omega
  · omega
  · exact ⟨hc (by omega), h.2.2⟩

theorem unitsOf_pos (c : Char) : 0 < unitsOf c := by
  unfold unitsOf
  split <;> omega

theorem append_of_units16_le {a b x y : List Char} (h : a ++ x = b ++ y)
    (hu : units16 a ≤ units16 b) : ∃ c, b = a ++ c ∧ x = c ++ y := by
  rcases List.append_eq_append_iff.1 h with ⟨c, hb, hx⟩ | ⟨c, rfl, rfl⟩
  · exact ⟨c, hb, hx⟩
  · have hc := length_le_units16 c
    rw [units16_append] at hu
    obtain rfl : c = [] := List.eq_nil_of_length_eq_zero (by omega)
    exact ⟨[], by simp, by simp⟩

/-- What begins the units of a text begins the text. -/
theorem prefix_of_utf16 {a cs : List Char} {x : List Nat} (h : utf16 cs = utf16 a ++ x) :
    ∃ rest, cs = a ++ rest := by
  induction a generalizing cs with
  | nil => exact ⟨cs, rfl⟩
  | cons c a ih =>
    cases cs with
    | nil =>
      rcases codeUnits_cases c with ⟨e, -⟩ | ⟨e, -⟩ <;> simp [e] at h
    | cons d cs =>
      rw [utf16_cons, utf16_cons, List.append_assoc] at h
      obtain ⟨rfl, ht⟩ := codeUnits_append_inj h
      obtain ⟨rest, rfl⟩ := ih ht
      exact ⟨rest, rfl⟩

/-- Units that begin with an ASCII character stand between two characters of the text. -/
theorem cut_of_utf16 {cs : List Char} {before after : List Nat} {u : Nat}
    (h : utf16 cs = before ++ u :: after) (hu : u < 0x80) :
    ∃ lead rest, cs = lead ++ rest ∧ utf16 lead = before ∧ utf16 rest = u :: after := by
  induction cs generalizing before with
  | nil => simp at h
  | cons c cs ih =>
    cases before with
    | nil => exact ⟨[], c :: cs, rfl, rfl, h⟩
    | cons b before =>
      rcases codeUnits_cases c with ⟨e, -⟩ | ⟨e, hb, ht⟩
      · simp only [utf16_cons, e, List.cons_append, List.nil_append, List.cons.injEq] at h
        obtain ⟨lead, rest, rfl, hl, hr⟩ := ih h.2
        exact ⟨c :: lead, rest, rfl, by simp [e, hl, h.1], hr⟩
      · simp only [utf16_cons, e, List.cons_append, List.nil_append, List.cons.injEq] at h
        cases before with
        | nil =>
          -- the unit would be the second half of a pair
          simp only [List.nil_append, List.cons.injEq] at h
          omega
        | cons b' before =>
          simp only [List.cons_append, List.cons.injEq] at h
          obtain ⟨lead, rest, rfl, hl, hr⟩ := ih h.2.2
          exact ⟨c :: lead, rest, rfl, by simp [e, hl, h.1, h.2.1], hr⟩

end Seedbed
