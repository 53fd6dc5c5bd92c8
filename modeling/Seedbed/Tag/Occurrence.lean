import Seedbed.Tag
/-! The leftmost tag of a text. -/

namespace Seedbed

namespace Tag

/-- A tag within a text: the text before it, which holds no tag, the tag as it is written, and the
text after it. -/
structure Occurrence where
  lead : List Char
  tag : Tag
  written : List Char
  rest : List Char
  deriving Repr

namespace Occurrence

def start (o : Occurrence) : Nat := units16 o.lead

def stop (o : Occurrence) : Nat := o.start + units16 o.written

def before (c : Char) (o : Occurrence) : Occurrence := { o with lead := c :: o.lead }

end Occurrence

/-- The leftmost tag of a text. -/
def find? : List Char → Option Occurrence
  | [] => none
  | c :: cs =>
    match read? (c :: cs) with
    | some (tag, rest) => some ⟨[], tag, (c :: cs).take ((c :: cs).length - rest.length), rest⟩
    | none => (find? cs).map (·.before c)

theorem find?_rest_length {cs : List Char} {o : Occurrence} (h : find? cs = some o) :
    o.rest.length < cs.length := by
  induction cs generalizing o with
  | nil => simp [find?] at h
  | cons c cs ih =>
    unfold find? at h
    split at h
    · rename_i hr
      simp only [Option.some.injEq] at h
      subst h
      exact read?_length hr
    · obtain ⟨p, hp, rfl⟩ := Option.map_eq_some_iff.1 h
      have := ih hp
      simp only [Occurrence.before, List.length_cons]
      omega

end Tag

end Seedbed
