import Seedbed.Proofs.Text.Boundary
import Seedbed.Proofs.Tag.Split

/-! The replacing of tags as a loop with a cursor. Each turn scans what stands from the cursor on,
puts out what stands before the tag that it finds and what this tag stands for, and sets the cursor
to the end of the tag. A tag takes nine units at least, so the cursor moves on by as many and the
loop ends; it never leaves the boundaries of characters. What the loop comes to is the text with
its tags replaced. -/

namespace Seedbed

variable {σ : Type}

namespace Tag

theorem Spelling.nine_le_length (s : Spelling) : 9 ≤ s.text.length := by
  have hd := List.length_pos_iff.2 s.directive.property.1
  have hk := List.length_pos_iff.2 s.key.property.1
  simp only [text, afterKey, List.length_cons, List.length_append, List.length_nil]
  omega

theorem Spelling.nine_le_units16 (s : Spelling) : 9 ≤ units16 s.text :=
  s.nine_le_length.trans (length_le_units16 s.text)

/-- A tag at its place in a text, from one UTF-16 offset to another. -/
structure Placed where
  tag : Tag
  start : Nat
  stop : Nat
  deriving DecidableEq, Repr

def Occurrence.placed (o : Occurrence) (n : Nat) : Placed := ⟨o.tag, n + o.start, n + o.stop⟩

/-- The tags that are found one after the other, where the text begins at `n`. -/
def foundFrom (n : Nat) (cs : List Char) : List Placed :=
  match _h : find? cs with
  | none => []
  | some o => o.placed n :: foundFrom (n + o.stop) o.rest
termination_by cs.length
decreasing_by exact find?_rest_length _h

def found (cs : List Char) : List Placed := foundFrom 0 cs

section found

variable {cs : List Char} {o : Occurrence}

theorem foundFrom_of_none (n : Nat) (h : find? cs = none) : foundFrom n cs = [] := by
  unfold foundFrom
  split
  · rfl
  · rename_i o ho
    cases ho.symm.trans h

theorem foundFrom_of_some (n : Nat) (h : find? cs = some o) :
    foundFrom n cs = o.placed n :: foundFrom (n + o.stop) o.rest := by
  rw [foundFrom]
  split
  · rename_i hn
    cases hn.symm.trans h
  · rename_i o' ho
    cases ho.symm.trans h
    rfl

/-- The text is what stands before a tag that is found, the tag and what stands after it. -/
theorem eq_of_find? (h : find? cs = some o) : cs = o.lead ++ o.written ++ o.rest := by
  obtain ⟨s, -, hw, hcs, -⟩ := exists_of_find? h
  rw [← hw, List.append_assoc]
  exact hcs

theorem nine_le_of_find? (h : find? cs = some o) : o.start + 9 ≤ o.stop := by
  obtain ⟨s, -, hw, -, -⟩ := exists_of_find? h
  have hs := s.nine_le_units16
  unfold Occurrence.stop
  rw [← hw]
  omega

theorem dropUnits_stop (h : find? cs = some o) : dropUnits o.stop cs = o.rest := by
  have hstop : o.stop = units16 (o.lead ++ o.written) := (units16_append _ _).symm
  rw [hstop, eq_of_find? h, dropUnits_append]

theorem boundary_start (h : find? cs = some o) : Boundary cs o.start :=
  ⟨o.lead, o.written ++ o.rest, by rw [← List.append_assoc]; exact eq_of_find? h, rfl⟩

theorem boundary_stop (h : find? cs = some o) : Boundary cs o.stop :=
  ⟨o.lead ++ o.written, o.rest, eq_of_find? h, units16_append _ _⟩

theorem nine_mul_length_foundFrom (n : Nat) (cs : List Char) :
    9 * (foundFrom n cs).length ≤ units16 cs := by
  induction cs using find?_induction generalizing n with
  | none cs h =>
    rw [foundFrom_of_none n h]
    exact Nat.zero_le _
  | some cs o h ih =>
    have hrest := ih (n + o.stop)
    have hnine := nine_le_of_find? h
    have hle := (boundary_stop h).le
    rw [← dropUnits_stop h, units16_dropUnits, dropUnits_stop h] at hrest
    rw [foundFrom_of_some n h, List.length_cons]
    omega

end found

end Tag

namespace Template

theorem map_snd_holes_cut (n : Nat) (cs : List Char) :
    (cut cs).holes.map Prod.snd = (Tag.foundFrom n cs).map Tag.Placed.tag := by
  induction cs using Tag.find?_induction generalizing n with
  | none cs h =>
    rw [cut_of_none h, Tag.foundFrom_of_none n h]
    rfl
  | some cs o h ih =>
    rw [cut_of_some h, Tag.foundFrom_of_some n h, List.map_cons, List.map_cons, ih (n + o.stop)]
    rfl

theorem length_holes_cut (cs : List Char) :
    (cut cs).holes.length = (Tag.found cs).length := by
  have h := congrArg List.length (map_snd_holes_cut 0 cs)
  rwa [List.length_map, List.length_map] at h

end Template

/-- How far the text was looked at, in UTF-16 units, and what was put out for it. -/
structure Pass where
  cursor : Nat
  output : List Char

namespace Pass

def start : Pass := ⟨0, []⟩

/-- Past a tag that was found from the cursor on, with what it stands for put out. -/
def past (p : Pass) (o : Tag.Occurrence) (text : String) : Pass where
  cursor := p.cursor + o.stop
  output := p.output ++ (o.lead ++ text.toList)

inductive Outcome
  | going (p : Pass)
  | ended (text : List Char)

def turn (resolve : Tag.Placed → Action σ String) (cs : List Char) (p : Pass) :
    Action σ Outcome :=
  if p.cursor < units16 cs then
    let rest := dropUnits p.cursor cs
    match Tag.find? rest with
    | none => return .ended (p.output ++ rest)
    | some o => do
      let text ← resolve (o.placed p.cursor)
      return .going (p.past o text)
  else return .ended p.output

/-- The loop, stopped after so many turns if it did not end before. -/
def turns (resolve : Tag.Placed → Action σ String) (cs : List Char) : Nat → Pass → Action σ Outcome
  | 0, p => return .going p
  | n + 1, p => do
    match ← turn resolve cs p with
    | .going q => turns resolve cs n q
    | .ended text => return .ended text

end Pass

def Tag.Placed.resolve (scope : Scope σ) (p : Tag.Placed) : Action σ String := p.tag.resolve scope

def Pass.listing (resolve : Tag.Placed → Action σ String) (p : Tag.Placed) :
    Action (List Tag.Placed × σ) String := do
  Action.change (· ++ [p])
  (resolve p).beside

namespace Pass

section turns

variable {resolve : Tag.Placed → Action σ String} {cs : List Char} {p q : Pass} {w w' : σ}
  {o : Tag.Occurrence} {n : Nat}

theorem turn_of_none (h : Tag.find? (dropUnits p.cursor cs) = none) :
    turn resolve cs p = pure (.ended (p.output ++ dropUnits p.cursor cs)) := by
  unfold turn
  split
  · simp only [h]
  · rename_i hend
    -- at the end of the text nothing is left
    have hlen := length_le_units16 (dropUnits p.cursor cs)
    rw [units16_dropUnits] at hlen
    have hrest : dropUnits p.cursor cs = [] := List.eq_nil_of_length_eq_zero (by omega)
    rw [hrest, List.append_nil]

theorem turn_of_some (h : Tag.find? (dropUnits p.cursor cs) = some o) :
    turn resolve cs p = do
      let text ← resolve (o.placed p.cursor)
      return .going (p.past o text) := by
  have hlt : p.cursor < units16 cs := by
    have hnine := Tag.nine_le_of_find? h
    have hle := (Tag.boundary_stop h).le
    rw [units16_dropUnits] at hle
    omega
  unfold turn
  simp only [if_pos hlt, h]

theorem turns_of_none (h : Tag.find? (dropUnits p.cursor cs) = none) :
    turns resolve cs (n + 1) p = pure (.ended (p.output ++ dropUnits p.cursor cs)) := by
  rw [turns, turn_of_none h, pure_bind]

theorem turns_of_some (h : Tag.find? (dropUnits p.cursor cs) = some o) :
    turns resolve cs (n + 1) p =
      resolve (o.placed p.cursor) >>= fun text => turns resolve cs n (p.past o text) := by
  rw [turns, turn_of_some h]
  simp only [bind_assoc, pure_bind]

theorem boundary_past (hp : Boundary cs p.cursor)
    (h : Tag.find? (dropUnits p.cursor cs) = some o) (text : String) :
    Boundary cs (p.past o text).cursor :=
  hp.add (Tag.boundary_stop h)

theorem dropUnits_past (hp : Boundary cs p.cursor)
    (h : Tag.find? (dropUnits p.cursor cs) = some o) (text : String) :
    dropUnits (p.past o text).cursor cs = o.rest := by
  rw [past, hp.dropUnits_add, Tag.dropUnits_stop h]

theorem nine_le_past (h : Tag.find? (dropUnits p.cursor cs) = some o) (text : String) :
    p.cursor + 9 ≤ (p.past o text).cursor := by
  have hnine := Tag.nine_le_of_find? h
  show p.cursor + 9 ≤ p.cursor + o.stop
  omega

/-- A turn after which the loop goes on moves the cursor on to the end of a tag. -/
theorem turn_going (hp : Boundary cs p.cursor) (h : turn resolve cs p w = (.ok (.going q), w')) :
    Boundary cs q.cursor ∧ p.cursor + 9 ≤ q.cursor := by
  cases hf : Tag.find? (dropUnits p.cursor cs) with
  | none =>
    rw [turn_of_none hf] at h
    cases h
  | some o =>
    rw [turn_of_some hf] at h
    rcases Action.run_cases (resolve (o.placed p.cursor)) w with ⟨text, w₁, hr⟩ | ⟨e, w₁, hr⟩
    · rw [Action.bind_ok hr] at h
      cases h
      exact ⟨boundary_past hp hf text, nine_le_past hf text⟩
    · rw [Action.bind_error hr] at h
      cases h

theorem turns_going (hp : Boundary cs p.cursor)
    (h : turns resolve cs n p w = (.ok (.going q), w')) :
    Boundary cs q.cursor ∧ p.cursor + 9 * n ≤ q.cursor := by
  induction n generalizing p w with
  | zero =>
    cases h
    exact ⟨hp, by omega⟩
  | succ n ih =>
    rw [turns] at h
    rcases Action.run_cases (turn resolve cs p) w with ⟨r, w₁, ht⟩ | ⟨e, w₁, ht⟩
    · rw [Action.bind_ok ht] at h
      cases r with
      | going mid =>
        obtain ⟨hmid, hstep⟩ := turn_going hp ht
        obtain ⟨hq, hrun⟩ := ih hmid h
        exact ⟨hq, by omega⟩
      | ended text => cases h
    · rw [Action.bind_error ht] at h
      cases h

/-- Enough turns end the loop, with the text in which what stands from the cursor on has its tags
replaced. -/
theorem turns_eq {scope : Scope σ} (hp : Boundary cs p.cursor)
    (hn : units16 cs < p.cursor + 9 * n) :
    turns (Tag.Placed.resolve scope) cs n p = do
      let filled ← Template.fillHoles scope (Template.cut (dropUnits p.cursor cs)).holes
      return .ended (p.output ++ (filled ++ (Template.cut (dropUnits p.cursor cs)).tail)) := by
  induction n generalizing p with
  | zero =>
    have hle := hp.le
    omega
  | succ n ih =>
    cases hf : Tag.find? (dropUnits p.cursor cs) with
    | none =>
      rw [turns_of_none hf, Template.cut_of_none hf]
      simp only [pure_bind, Template.fillHoles, List.nil_append]
    | some o =>
      rw [turns_of_some hf, Template.cut_of_some hf]
      simp only [bind_assoc, pure_bind, Template.fillHoles]
      refine bind_congr fun text => ?_
      have hstep := nine_le_past hf text
      rw [ih (boundary_past hp hf text) (by omega), dropUnits_past hp hf]
      simp only [past, List.append_assoc]

theorem turns_start {scope : Scope σ} {text : String} (hn : units16 text.toList / 9 < n) :
    turns (Tag.Placed.resolve scope) text.toList n start = do
      return .ended (← substitute scope text).toList := by
  have hstart : Boundary text.toList start.cursor := boundary_zero _
  have henough : units16 text.toList < start.cursor + 9 * n := by
    show units16 text.toList < 0 + 9 * n
    omega
  rw [turns_eq hstart henough]
  simp only [substitute, Template.fill, Template.ofText, start, dropUnits_zero, bind_assoc,
    pure_bind, List.nil_append, String.toList_ofList]

variable (resolve)

theorem listing_run (t : Tag.Placed) (ts : List Tag.Placed) (w : σ) :
    listing resolve t (ts, w) = ((resolve t w).1, (ts ++ [t], (resolve t w).2)) := by
  rw [listing, Action.bind_ok (Action.change_run _ ts w), Action.beside_run]

/-- The loop resolves the tags that are found from the cursor on, in order, and all of them if it
ends. -/
theorem turns_listing (n : Nat) (hp : Boundary cs p.cursor) (ts : List Tag.Placed) (w : σ) :
    ∃ new, new <+: Tag.foundFrom p.cursor (dropUnits p.cursor cs) ∧
      (∀ text, (turns resolve cs n p w).1 = .ok (.ended text) →
        new = Tag.foundFrom p.cursor (dropUnits p.cursor cs)) ∧
      turns (listing resolve) cs n p (ts, w) =
        ((turns resolve cs n p w).1, (ts ++ new, (turns resolve cs n p w).2)) := by
  induction n generalizing p ts w with
  | zero =>
    refine ⟨[], List.nil_prefix, ?_, by rw [List.append_nil]; rfl⟩
    intro text h
    cases h
  | succ n ih =>
    cases hf : Tag.find? (dropUnits p.cursor cs) with
    | none =>
      rw [Tag.foundFrom_of_none _ hf, turns_of_none hf, turns_of_none hf]
      exact ⟨[], List.nil_prefix, fun _ _ => rfl, by rw [List.append_nil]; rfl⟩
    | some o =>
      have hlist := listing_run resolve (o.placed p.cursor) ts w
      rw [Tag.foundFrom_of_some _ hf, turns_of_some hf, turns_of_some hf]
      rcases Action.run_cases (resolve (o.placed p.cursor)) w with ⟨text, w₁, hr⟩ | ⟨e, w₁, hr⟩
      · rw [hr] at hlist
        rw [Action.bind_ok hr, Action.bind_ok hlist]
        obtain ⟨new, hpre, hall, hrun⟩ :=
          ih (boundary_past hp hf text) (ts ++ [o.placed p.cursor]) w₁
        rw [dropUnits_past hp hf] at hpre hall
        refine ⟨o.placed p.cursor :: new, List.cons_prefix_cons.2 ⟨rfl, hpre⟩, ?_, ?_⟩
        · intro result h
          rw [hall result h]
          rfl
        · rw [hrun, List.append_assoc]
          rfl
      · rw [hr] at hlist
        rw [Action.bind_error hr, Action.bind_error hlist]
        refine ⟨[o.placed p.cursor], List.cons_prefix_cons.2 ⟨rfl, List.nil_prefix⟩, ?_, rfl⟩
        intro result h
        cases h

theorem turns_start_listing (n : Nat) (w : σ) :
    ∃ resolved, resolved <+: Tag.found cs ∧
      (∀ text, (turns resolve cs n start w).1 = .ok (.ended text) → resolved = Tag.found cs) ∧
      turns (listing resolve) cs n start ([], w) =
        ((turns resolve cs n start w).1, (resolved, (turns resolve cs n start w).2)) := by
  have hstart : Boundary cs start.cursor := boundary_zero cs
  have hrest : dropUnits start.cursor cs = cs := dropUnits_zero cs
  obtain ⟨resolved, hpre, hall, hrun⟩ := turns_listing resolve n hstart [] w
  rw [hrest] at hpre hall
  exact ⟨resolved, hpre, hall, hrun⟩

end turns

end Pass

/-- A tag that is found takes nine units at least, within the text and between characters. So the
loop that looks for the tags behind a cursor moves on at each turn, from one boundary of characters
to another and never past the end. After a ninth as many turns as the text has units, and one more,
it has ended as the replacing of tags does. It resolves no more tags than a ninth of the units, and
no more have to be replaced. -/
theorem cursor_advances (scope : Scope σ) (text : String) :
    (∀ cs o, Tag.find? cs = some o → o.start + 9 ≤ o.stop ∧ o.stop ≤ units16 cs ∧
      ¬ WithinPair (utf16 cs) o.start ∧ ¬ WithinPair (utf16 cs) o.stop) ∧
    (∀ n w p w', Pass.turns (Tag.Placed.resolve scope) text.toList n .start w =
        (.ok (.going p), w') →
      Boundary text.toList p.cursor ∧ p.cursor ≤ units16 text.toList ∧
      ∀ q w'', Pass.turn (Tag.Placed.resolve scope) text.toList p w' = (.ok (.going q), w'') →
        p.cursor < q.cursor) ∧
    (∀ n, units16 text.toList / 9 < n →
      Pass.turns (Tag.Placed.resolve scope) text.toList n .start = do
        return .ended (← substitute scope text).toList) ∧
    (∀ n w, ∃ resolved : List Tag.Placed, resolved.length ≤ units16 text.toList / 9 ∧
      Pass.turns (Pass.listing (Tag.Placed.resolve scope)) text.toList n .start ([], w) =
        ((Pass.turns (Tag.Placed.resolve scope) text.toList n .start w).1,
          (resolved, (Pass.turns (Tag.Placed.resolve scope) text.toList n .start w).2))) ∧
    (Template.ofText text).holes.length ≤ units16 text.toList / 9 := by
  have hstart : Boundary text.toList Pass.start.cursor := boundary_zero _
  have hfound : (Tag.found text.toList).length ≤ units16 text.toList / 9 := by
    have hnine : 9 * (Tag.found text.toList).length ≤ units16 text.toList :=
      Tag.nine_mul_length_foundFrom 0 text.toList
    omega
  refine ⟨?_, ?_, fun n hn => Pass.turns_start hn, ?_, ?_⟩
  · intro cs o h
    have hstop := Tag.boundary_stop h
    exact ⟨Tag.nine_le_of_find? h, hstop.le, (Tag.boundary_start h).not_withinPair,
      hstop.not_withinPair⟩
  · intro n w p w' h
    obtain ⟨hp, -⟩ := Pass.turns_going hstart h
    refine ⟨hp, hp.le, ?_⟩
    intro q w'' hq
    obtain ⟨-, hlt⟩ := Pass.turn_going hp hq
    omega
  · intro n w
    obtain ⟨resolved, hpre, -, hrun⟩ := Pass.turns_start_listing (Tag.Placed.resolve scope) n w
    exact ⟨resolved, hpre.length_le.trans hfound, hrun⟩
  · rw [Template.ofText, Template.length_holes_cut]
    exact hfound

/-- No tag is shorter than this one. -/
example : (Tag.find? "$\x7b\x7bA(B)\x7d\x7d".toList).map (fun o => (o.start, o.stop)) =
    some (0, 9) := by
  decide

end Seedbed
