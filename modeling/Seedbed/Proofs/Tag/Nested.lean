import Seedbed.Proofs.Tag.Pass

/-! Tags that begin within other tags. Of the characters of a tag only those in a quoted default
can begin another tag, so a tag that begins before another one has ended begins between the quotes
of its default. Where no tag that is replaced has a `$` in its default, these are all the tags of
the text. What is found from a place within none of them on are those that begin there or later. -/

namespace Seedbed

namespace Tag

/-! ### The `$` of a tag -/

theorem dollar_not_mem_blanks (b : Blanks) : '$' ∉ b.val :=
  fun h => absurd (b.property _ h) (by decide)

theorem dollar_not_mem_token {P : Char → Prop} (t : Token P) (hP : ¬ P '$') : '$' ∉ t.val :=
  fun h => hP (t.property.2 _ h)

theorem dollar_not_mem_word (t : Token IsWord) : '$' ∉ t.val :=
  dollar_not_mem_token t (by decide)

theorem dollar_not_mem_key (t : Token IsKey) : '$' ∉ t.val :=
  dollar_not_mem_token t (by decide)

def Fallback.mark (f : Fallback) : List Char := f.beforeMark.val ++ ':' :: '-' :: f.afterMark.val

namespace Spelling

/-- What stands after the `$`, with the key. -/
def front (s : Spelling) : List Char :=
  '{' :: '{' :: (s.beforeDirective.val ++ (s.directive.val ++ (s.afterDirective.val ++
    '(' :: (s.beforeKey.val ++ s.key.val))))

def back (s : Spelling) : List Char :=
  s.afterArguments.val ++ ')' :: (s.beforeClosing.val ++ ['}', '}'])

def quoteOffset (s : Spelling) (f : Fallback) : Nat := units16 ('$' :: (s.front ++ f.mark))

/-- The offset, from the beginning of the tag, is that of a place between the quotes of its
default. -/
def WithinQuotes (s : Spelling) (k : Nat) : Prop :=
  ∃ f inner, s.fallback = some f ∧ f.value = .quoted inner ∧ s.quoteOffset f < k ∧
    k < s.quoteOffset f + 1 + units16 inner.val

variable {s : Spelling}

theorem text_of_none (h : s.fallback = none) : s.text = '$' :: (s.front ++ s.back) := by
  simp [text, afterKey, fallbackText, h, front, back]

theorem text_of_some {f : Fallback} (h : s.fallback = some f) :
    s.text = '$' :: (s.front ++ f.mark) ++ (f.value.text ++ s.back) := by
  simp [text, afterKey, fallbackText, h, front, back, Fallback.text, Fallback.mark]

theorem dollar_not_mem_front (s : Spelling) : '$' ∉ s.front := by
  simp [front, dollar_not_mem_blanks, dollar_not_mem_word, dollar_not_mem_key]

theorem dollar_not_mem_mark (f : Fallback) : '$' ∉ f.mark := by
  simp [Fallback.mark, dollar_not_mem_blanks]

theorem dollar_not_mem_back (s : Spelling) : '$' ∉ s.back := by
  simp [back, dollar_not_mem_blanks]

end Spelling

section split

variable {a b x y : List Char} {c : Char}

theorem append_of_not_mem (h : a ++ b = x ++ c :: y) (hc : c ∉ a) :
    ∃ x', x = a ++ x' ∧ b = x' ++ c :: y := by
  rcases List.append_eq_append_iff.1 h with ⟨x', hx, hb⟩ | ⟨a', ha, hy⟩
  · exact ⟨x', hx, hb⟩
  · cases a' with
    | nil =>
      rw [List.append_nil] at ha
      exact ⟨[], by rw [ha, List.append_nil], hy.symm⟩
    | cons d a' =>
      obtain ⟨rfl, -⟩ := List.cons.inj hy
      exact absurd (by simp [ha]) hc

theorem eq_append_of_not_mem (h : a ++ b = x ++ c :: y) (hc : c ∉ b) :
    ∃ y', a = x ++ c :: y' := by
  rcases List.append_eq_append_iff.1 h with ⟨x', -, hb⟩ | ⟨a', ha, hy⟩
  · exact absurd (by simp [hb]) hc
  · cases a' with
    | nil => exact absurd (by simp [show b = c :: y from hy.symm]) hc
    | cons d a' =>
      obtain ⟨rfl, -⟩ := List.cons.inj hy
      exact ⟨a', ha⟩

end split

/-- A default with a `$` is quoted, and the `$` stands between its quotes. -/
theorem Default.exists_quoted {v : Default} {x y : List Char} (h : v.text = x ++ '$' :: y) :
    ∃ inner lead rest, v = .quoted inner ∧ inner.val = lead ++ '$' :: rest ∧ x = '"' :: lead := by
  cases v with
  | word w =>
    have hmem : '$' ∈ w.val := by
      rw [show w.val = _ from h]
      simp
    exact absurd hmem (dollar_not_mem_word w)
  | quoted inner =>
    obtain ⟨lead, rfl, hrest⟩ :=
      append_of_not_mem (show ['"'] ++ (inner.val ++ ['"']) = _ from h) (by decide)
    obtain ⟨rest, hinner⟩ := eq_append_of_not_mem hrest (by decide)
    exact ⟨inner, lead, rest, rfl, hinner, rfl⟩

/-- A `$` of a tag other than its first character stands between the quotes of its default. -/
theorem Spelling.exists_quoted {s : Spelling} {x y : List Char} (h : s.text = x ++ '$' :: y)
    (hx : x ≠ []) :
    ∃ f inner lead rest, s.fallback = some f ∧ f.value = .quoted inner ∧
      inner.val = lead ++ '$' :: rest ∧ x = '$' :: (s.front ++ f.mark) ++ '"' :: lead := by
  obtain ⟨c, x, rfl⟩ := List.exists_cons_of_ne_nil hx
  cases hf : s.fallback with
  | none =>
    rw [text_of_none hf, List.cons_append, List.cons.injEq] at h
    have hmem : '$' ∈ s.front ++ s.back := by rw [h.2]; simp
    rcases List.mem_append.1 hmem with hd | hd
    · exact absurd hd (dollar_not_mem_front s)
    · exact absurd hd (dollar_not_mem_back s)
  | some f =>
    have hbefore : '$' ∉ s.front ++ f.mark := by
      simp [dollar_not_mem_front, dollar_not_mem_mark]
    rw [text_of_some hf, List.cons_append, List.cons_append, List.cons.injEq] at h
    obtain ⟨rfl, htail⟩ := h
    obtain ⟨x', rfl, hdefault⟩ := append_of_not_mem htail hbefore
    obtain ⟨y', hvalue⟩ := eq_append_of_not_mem hdefault (dollar_not_mem_back s)
    obtain ⟨inner, lead, rest, hv, hinner, rfl⟩ := Default.exists_quoted hvalue
    exact ⟨f, inner, lead, rest, rfl, hv, hinner, rfl⟩

/-! ### Tags that overlap -/

section spans

variable {cs : List Char} {s s₁ s₂ : Spelling} {i j i₁ j₁ i₂ j₂ k : Nat}

theorem exists_dollar (h₁ : Spans cs s₁ i₁ j₁) (h₂ : Spans cs s₂ i₂ j₂) (hlt : i₁ < i₂)
    (hlt' : i₂ < j₁) : ∃ x y, s₁.text = x ++ '$' :: y ∧ x ≠ [] ∧ i₂ = i₁ + units16 x := by
  obtain ⟨lead₁, rest₁, rfl, rfl, rfl⟩ := spans_iff.1 h₁
  obtain ⟨lead₂, rest₂, e, rfl, -⟩ := spans_iff.1 h₂
  obtain ⟨x, rfl, hx⟩ := append_of_units16_le e (Nat.le_of_lt hlt)
  rw [units16_append] at hlt hlt'
  obtain ⟨y, hy, hrest⟩ := append_of_units16_le hx.symm (by omega)
  have hne : x ≠ [] := by
    rintro rfl
    simp at hlt
  cases y with
  | nil =>
    rw [List.append_nil] at hy
    rw [hy] at hlt'
    omega
  | cons c y =>
    obtain ⟨rfl, -⟩ := List.cons.inj hrest
    exact ⟨x, y, hy, hne, units16_append _ _⟩

theorem withinQuotes_of_spans (h₁ : Spans cs s₁ i₁ j₁) (h₂ : Spans cs s₂ i₂ j₂) (hlt : i₁ < i₂)
    (hlt' : i₂ < j₁) : s₁.WithinQuotes (i₂ - i₁) := by
  obtain ⟨x, y, hx, hne, rfl⟩ := exists_dollar h₁ h₂ hlt hlt'
  obtain ⟨f, inner, lead, rest, hf, hv, hinner, rfl⟩ := Spelling.exists_quoted hx hne
  have hx : units16 ('$' :: (s₁.front ++ f.mark) ++ '"' :: lead) =
      s₁.quoteOffset f + (1 + units16 lead) := units16_append _ _
  have hdollar := unitsOf_pos '$'
  rw [Nat.add_sub_cancel_left, hx]
  refine ⟨f, inner, hf, hv, by omega, ?_⟩
  rw [hinner, units16_append, units16_cons]
  omega

/-- The tag whose default another tag begins in has a `$` in this default. -/
theorem exists_dollar_default (h₁ : Spans cs s₁ i₁ j₁) (h₂ : Spans cs s₂ i₂ j₂) (hlt : i₁ < i₂)
    (hlt' : i₂ < j₁) : ∃ d ∈ s₁.tag.fallback, '$' ∈ d.toList := by
  obtain ⟨x, y, hx, hne, -⟩ := exists_dollar h₁ h₂ hlt hlt'
  obtain ⟨f, inner, lead, rest, hf, hv, hinner, -⟩ := Spelling.exists_quoted hx hne
  refine ⟨.ofList f.value.text, ?_, ?_⟩
  · simp [Spelling.tag, hf]
  · simp [hv, Default.text, hinner]

theorem lt_of_spans (h : Spans cs s i j) : i < j := by
  obtain ⟨_, _, -, -, rfl⟩ := spans_iff.1 h
  have hpos := s.units16_text_pos
  omega

theorem spans_iff_begins :
    Spans cs s i j ↔ utf16 s.text <+: (utf16 cs).drop i ∧ i + units16 s.text = j := by
  constructor
  · rintro ⟨before, after, h, rfl, hj⟩
    rw [length_utf16] at hj
    refine ⟨⟨after, ?_⟩, hj⟩
    rw [h, List.drop_left]
  · rintro ⟨⟨after, h⟩, hj⟩
    refine ⟨(utf16 cs).take i, after, ?_, ?_, by rwa [length_utf16]⟩
    · rw [h, List.take_append_drop]
    · have hlen := congrArg List.length h
      have hpos := s.units16_text_pos
      rw [List.length_append, length_utf16, List.length_drop] at hlen
      rw [List.length_take]
      omega

theorem spans_dropUnits : Spans (dropUnits k cs) s i j ↔ Spans cs s (k + i) (k + j) := by
  have hj : k + i + units16 s.text = k + j ↔ i + units16 s.text = j := by omega
  rw [spans_iff_begins, spans_iff_begins, hj, ← List.drop_drop]
  rcases utf16_dropUnits k cs with h | ⟨low, after, hlow, hdrop, h⟩
  · rw [h]
  · rw [h, hdrop]
    cases i with
    | zero =>
      -- no tag begins with half of a pair, nor with what stands for it
      have hlow' : 0x24 ≠ low := by
        rintro rfl
        unfold IsLowHalf at hlow
        omega
      have htext : utf16 s.text = 0x24 :: utf16 s.text.tail := rfl
      rw [htext, List.drop_zero, List.drop_zero, List.cons_prefix_cons, List.cons_prefix_cons]
      simp [hlow']
    | succ i => rw [List.drop_succ_cons, List.drop_succ_cons]

end spans

/-! ### The tags that are found -/

/-- The tag is spelled at its place in the text. -/
def Placed.Spelled (cs : List Char) (p : Placed) : Prop :=
  ∃ s : Spelling, s.tag = p.tag ∧ Spans cs s p.start p.stop

def Placed.shift (k : Nat) (p : Placed) : Placed := ⟨p.tag, k + p.start, k + p.stop⟩

section found

variable {cs : List Char} {o : Occurrence} {p : Placed} {n k : Nat}

/-- The tag that is found is the first one that is spelled, and nothing else is spelled there. -/
theorem exists_spans_of_find? (h : find? cs = some o) :
    ∃ s : Spelling, s.tag = o.tag ∧ Spans cs s o.start o.stop ∧
      (∀ s' i j, Spans cs s' i j → o.start ≤ i) ∧
      ∀ s' j, Spans cs s' o.start j → s' = s ∧ j = o.stop := by
  obtain ⟨s, ht, hw, rfl, hfree⟩ := exists_of_find? h
  have hstop : units16 o.lead + units16 s.text = o.stop := by rw [hw]; rfl
  refine ⟨s, ht, spans_iff.2 ⟨o.lead, o.rest, rfl, rfl, hstop⟩, ?_, ?_⟩
  · intro s' i j hs
    have hi := (free_iff_spans []).1 hfree s' i j hs
    rw [units16_nil] at hi
    unfold Occurrence.start
    omega
  · intro s' j hs
    rw [← hstop]
    exact spans_unique hs

theorem find?_eq_none_iff_not_spans : find? cs = none ↔ ∀ s i j, ¬ Spans cs s i j :=
  find?_eq_none_iff_free.trans free_iff_not_spans

/-- What is found is spelled where it is found. -/
theorem exists_spans_of_mem (h : p ∈ foundFrom n cs) :
    ∃ s i j, Spelling.tag s = p.tag ∧ Spans cs s i j ∧ p.start = n + i ∧ p.stop = n + j := by
  induction cs using find?_induction generalizing n with
  | none cs hf =>
    rw [foundFrom_of_none n hf] at h
    cases h
  | some cs o hf ih =>
    rw [foundFrom_of_some n hf, List.mem_cons] at h
    rcases h with rfl | h
    · obtain ⟨s, ht, hs, -⟩ := exists_spans_of_find? hf
      exact ⟨s, o.start, o.stop, ht, hs, rfl, rfl⟩
    · obtain ⟨s, i, j, ht, hs, hi, hj⟩ := ih h
      rw [← dropUnits_stop hf, spans_dropUnits] at hs
      exact ⟨s, o.stop + i, o.stop + j, ht, hs, by omega, by omega⟩

theorem le_start_of_mem (h : p ∈ foundFrom n cs) : n ≤ p.start := by
  obtain ⟨s, i, j, -, -, hi, -⟩ := exists_spans_of_mem h
  omega

theorem pairwise_foundFrom (n : Nat) (cs : List Char) :
    (foundFrom n cs).Pairwise fun p q => p.stop ≤ q.start := by
  induction cs using find?_induction generalizing n with
  | none cs h =>
    rw [foundFrom_of_none n h]
    exact .nil
  | some cs o h ih =>
    rw [foundFrom_of_some n h, List.pairwise_cons]
    refine ⟨?_, ih (n + o.stop)⟩
    intro q hq
    exact le_start_of_mem hq

/-- Where no default that is found has a `$`, whatever is spelled is found. -/
theorem mem_foundFrom_of_spans {s : Spelling} {i j : Nat}
    (hd : ∀ p ∈ foundFrom n cs, ∀ d ∈ p.tag.fallback, '$' ∉ d.toList) (hs : Spans cs s i j) :
    ⟨s.tag, n + i, n + j⟩ ∈ foundFrom n cs := by
  induction cs using find?_induction generalizing n i j with
  | none cs h => exact absurd hs (find?_eq_none_iff_not_spans.1 h s i j)
  | some cs o h ih =>
    obtain ⟨s', ht, hs', hleft, hunique⟩ := exists_spans_of_find? h
    have hi := hleft s i j hs
    have hij := lt_of_spans hs
    rw [foundFrom_of_some n h, List.forall_mem_cons] at hd
    rw [foundFrom_of_some n h, List.mem_cons]
    rcases Nat.lt_or_ge i o.stop with hlt | hge
    · rcases Nat.lt_or_eq_of_le hi with hinner | rfl
      · -- it would begin in the default of the tag that is found
        obtain ⟨d, hmem, hdollar⟩ := exists_dollar_default hs' hs hinner hlt
        rw [ht] at hmem
        exact absurd hdollar (hd.1 d hmem)
      · obtain ⟨rfl, rfl⟩ := hunique s j hs
        rw [ht]
        exact .inl rfl
    · right
      obtain ⟨i', rfl⟩ := Nat.exists_eq_add_of_le hge
      obtain ⟨j', rfl⟩ := Nat.exists_eq_add_of_le (hge.trans (Nat.le_of_lt hij))
      rw [← spans_dropUnits, dropUnits_stop h] at hs
      have hmem := ih hd.2 hs
      rwa [Nat.add_assoc, Nat.add_assoc] at hmem

/-! ### The tags after a cut -/

theorem Free.dropUnits {lead rest : List Char} (h : Free lead rest) (hk : k ≤ units16 lead) :
    Free (dropUnits k lead) rest := by
  rw [free_iff_spans []] at h ⊢
  intro s i j hs
  rw [List.nil_append, ← dropUnits_append_of_le hk, spans_dropUnits] at hs
  have hi := h s _ _ hs
  rw [units16_nil, units16_dropUnits]
  rw [units16_nil] at hi
  omega

theorem find?_dropUnits (h : find? cs = some o) (hk : k ≤ o.start) :
    find? (dropUnits k cs) = some { o with lead := dropUnits k o.lead } := by
  obtain ⟨s, ht, hw, hcs, hfree⟩ := exists_of_find? h
  rw [hcs, dropUnits_append_of_le hk, find?_append_of_free (hfree.dropUnits hk), ht, hw]

/-- What is found from a place within none of the tags on are the tags that begin there or
later. -/
theorem foundFrom_dropUnits
    (hk : ∀ p ∈ foundFrom n cs, ¬ (p.start < n + k ∧ n + k < p.stop)) :
    foundFrom (n + k) (dropUnits k cs) = (foundFrom n cs).filter fun p => n + k ≤ p.start := by
  induction cs using find?_induction generalizing n k with
  | none cs h =>
    have hcut : find? (dropUnits k cs) = none := by
      rw [find?_eq_none_iff_not_spans] at h ⊢
      intro s i j hs
      exact h s _ _ (spans_dropUnits.1 hs)
    rw [foundFrom_of_none n h, foundFrom_of_none (n + k) hcut, List.filter_nil]
  | some cs o h ih =>
    have hnine := nine_le_of_find? h
    rw [foundFrom_of_some n h, List.forall_mem_cons] at hk
    rw [foundFrom_of_some n h]
    rcases Nat.lt_or_ge k o.stop with hlt | hge
    · have hstart : k ≤ o.start := by
        have hnot : ¬ (n + o.start < n + k ∧ n + k < n + o.stop) := hk.1
        omega
      have hcut := find?_dropUnits h hstart
      have hplace : n + k + units16 (dropUnits k o.lead) = n + o.start := by
        rw [units16_dropUnits]
        unfold Occurrence.start at hstart ⊢
        omega
      have hall : ∀ p ∈ o.placed n :: foundFrom (n + o.stop) o.rest, n + k ≤ p.start := by
        rw [List.forall_mem_cons]
        refine ⟨Nat.add_le_add_left hstart n, ?_⟩
        intro p hp
        have hle := le_start_of_mem hp
        omega
      rw [List.filter_eq_self.2 (by simpa using hall), foundFrom_of_some _ hcut]
      simp only [Occurrence.placed, Occurrence.stop, Occurrence.start, ← Nat.add_assoc, hplace]
    · obtain ⟨k, rfl⟩ := Nat.exists_eq_add_of_le hge
      have hbefore : ¬ n + (o.stop + k) ≤ (o.placed n).start := by
        show ¬ n + (o.stop + k) ≤ n + o.start
        omega
      rw [(boundary_stop h).dropUnits_add, dropUnits_stop h,
        List.filter_cons_of_neg (by simpa using hbefore)]
      simp only [← Nat.add_assoc] at hk ⊢
      exact ih hk.2

theorem foundFrom_add (k n : Nat) (cs : List Char) :
    foundFrom (k + n) cs = (foundFrom n cs).map (Placed.shift k) := by
  induction cs using find?_induction generalizing n with
  | none cs h => rw [foundFrom_of_none _ h, foundFrom_of_none _ h, List.map_nil]
  | some cs o h ih =>
    rw [foundFrom_of_some _ h, foundFrom_of_some _ h, List.map_cons, ← ih (n + o.stop)]
    simp only [Occurrence.placed, Placed.shift, Nat.add_assoc]

theorem head?_foundFrom (n : Nat) (cs : List Char) :
    (foundFrom n cs).head? = (find? cs).map fun o => o.placed n := by
  cases h : find? cs with
  | none => rw [foundFrom_of_none n h, List.head?_nil, Option.map_none]
  | some o => rw [foundFrom_of_some n h, List.head?_cons, Option.map_some]

theorem found_dropUnits (hk : ∀ p ∈ found cs, ¬ (p.start < k ∧ k < p.stop)) :
    (found (dropUnits k cs)).map (Placed.shift k) =
      (found cs).filter fun p => k ≤ p.start := by
  have h : foundFrom (0 + k) (dropUnits k cs) = _ := foundFrom_dropUnits (by rwa [Nat.zero_add])
  rw [Nat.zero_add] at h
  rw [found, ← foundFrom_add, Nat.add_zero]
  exact h

theorem find?_dropUnits_placed (hk : ∀ p ∈ found cs, ¬ (p.start < k ∧ k < p.stop)) :
    ((find? (dropUnits k cs)).map fun o => o.placed k) =
      (found cs).find? fun p => k ≤ p.start := by
  rw [← List.head?_filter, ← found_dropUnits hk, found, ← foundFrom_add, Nat.add_zero,
    head?_foundFrom]

theorem mem_found_iff (hd : ∀ p ∈ found cs, ∀ d ∈ p.tag.fallback, '$' ∉ d.toList) :
    p ∈ found cs ↔ p.Spelled cs := by
  constructor
  · intro h
    obtain ⟨s, i, j, ht, hs, hi, hj⟩ := exists_spans_of_mem h
    rw [Nat.zero_add] at hi hj
    exact ⟨s, ht, by rwa [hi, hj]⟩
  · rintro ⟨s, ht, hs⟩
    have hmem := mem_foundFrom_of_spans hd hs
    rwa [ht, Nat.zero_add, Nat.zero_add] at hmem

end found

end Tag

/-- A tag that begins before another one has ended begins between the quotes of the other's
default. The tags that are resolved are those that are found one after the other, all of them if
none throws. Where none of them has a `$` in its default, they are all the tags of the text, in
order. What is found from a place within none of them on, by one scan or by all, are those that
begin there or later. -/
theorem overlaps_within_quotes (text : String) :
    (∀ s₁ i₁ j₁ s₂ i₂ j₂, Tag.Spans text.toList s₁ i₁ j₁ → Tag.Spans text.toList s₂ i₂ j₂ →
      i₁ < i₂ → i₂ < j₁ → s₁.WithinQuotes (i₂ - i₁)) ∧
    (Template.ofText text).holes.map Prod.snd = (Tag.found text.toList).map Tag.Placed.tag ∧
    (∀ {σ : Type} (scope : Scope σ) w n, units16 text.toList / 9 < n →
      ∃ resolved, resolved <+: Tag.found text.toList ∧
        (∀ result, (substitute scope text w).1 = .ok result →
          resolved = Tag.found text.toList) ∧
        Pass.turns (Pass.listing (Tag.Placed.resolve scope)) text.toList n .start ([], w) =
          ((substitute scope text w).1.map fun result => .ended result.toList,
            (resolved, (substitute scope text w).2))) ∧
    ((∀ p ∈ Tag.found text.toList, ∀ d ∈ p.tag.fallback, '$' ∉ d.toList) →
      (∀ p, p ∈ Tag.found text.toList ↔ p.Spelled text.toList) ∧
      (Tag.found text.toList).Pairwise fun p q => p.stop ≤ q.start) ∧
    ∀ k, (∀ p ∈ Tag.found text.toList, ¬ (p.start < k ∧ k < p.stop)) →
      (Tag.found (dropUnits k text.toList)).map (Tag.Placed.shift k) =
          (Tag.found text.toList).filter (fun p => k ≤ p.start) ∧
        ((Tag.find? (dropUnits k text.toList)).map fun o => o.placed k) =
          (Tag.found text.toList).find? fun p => k ≤ p.start := by
  refine ⟨?_, Template.map_snd_holes_cut 0 text.toList, ?_, ?_, ?_⟩
  · intro s₁ i₁ j₁ s₂ i₂ j₂ h₁ h₂ hlt hlt'
    exact Tag.withinQuotes_of_spans h₁ h₂ hlt hlt'
  · intro σ scope w n hn
    obtain ⟨resolved, hpre, hall, hrun⟩ :=
      Pass.turns_start_listing (Tag.Placed.resolve scope) n w
    rw [Pass.turns_start hn, Action.bind_pure_run] at hall hrun
    refine ⟨resolved, hpre, ?_, hrun⟩
    intro result h
    exact hall result.toList (by rw [h]; rfl)
  · intro hd
    exact ⟨fun p => Tag.mem_found_iff hd, Tag.pairwise_foundFrom 0 text.toList⟩
  · intro k hk
    exact ⟨Tag.found_dropUnits hk, Tag.find?_dropUnits_placed hk⟩

/-- The second tag begins in the default of the first one and ends after it. It is found where the
first one is cut off. -/
example :
    let text := "$\x7b\x7bA(B:-\"$\x7b\x7bC(D:-\")\x7d\x7d\")\x7d\x7d".toList
    (Tag.found text).map (fun p => (p.start, p.stop)) = [(0, 21)] ∧
      (Tag.found (dropUnits 9 text)).map (fun p => (p.start, p.stop)) = [(0, 16)] := by
  decide +kernel

end Seedbed
