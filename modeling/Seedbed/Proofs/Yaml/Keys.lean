import Seedbed.Proofs.Yaml.Nodes

/-! The keys and values of a map at the root of a YAML text. A scalar has the value of its text in
the version of the document, and no two keys are scalars with the same value, in block maps and in
those between braces. -/

namespace Seedbed

namespace Yaml

namespace Node

def Filled (version : Version) (value : Option Node) : Prop :=
  ∀ n, value = some n → n.Valued version

/-- Each key has the value of its text and differs from the keys before it. -/
structure Distinct (version : Version) (pairs : List (Node × Option Node)) : Prop where
  valued : ∀ p ∈ pairs, p.1.KeyValued version
  filled : ∀ p ∈ pairs, Filled version p.2
  differ : pairs.Pairwise fun p q => p.1.sameKey q.1 = false

variable {version : Version}

theorem Distinct.nil : Distinct version [] := ⟨by simp, by simp, .nil⟩

theorem Distinct.append {pairs : List (Node × Option Node)} (h : Distinct version pairs)
    {key : Node} (hv : key.KeyValued version) (hn : ∀ p ∈ pairs, p.1.sameKey key = false)
    {value : Option Node} (hf : Filled version value) : Distinct version (pairs ++ [(key, value)]) where
  valued p hp := by
    rcases List.mem_append.1 hp with hp | hp
    · exact h.valued p hp
    · rw [List.mem_singleton.1 hp]
      exact hv
  filled p hp := by
    rcases List.mem_append.1 hp with hp | hp
    · exact h.filled p hp
    · rw [List.mem_singleton.1 hp]
      exact hf
  differ := by
    refine List.pairwise_append.2 ⟨h.differ, List.pairwise_singleton _ _, fun p hp q hq => ?_⟩
    rw [List.mem_singleton.1 hq]
    exact hn p hp

def Reading.Sound (version : Version) (r : Reading) : Prop := Distinct version r.pairs.reverse

section reading

variable {directives : Directives} {r r' : Reading}

theorem Reading.Adds.sound {entry : Entry} (h : r.Adds directives entry r')
    (hr : r.Sound directives.version) : r'.Sound directives.version := by
  rw [Reading.Sound]
  cases h with
  | nothing hp hi | item hn hp hi | pairItem key value hk hv hp hi =>
    rw [hp]
    exact hr
  | pair key value hk hv hnew hp hi =>
    rw [hp, List.reverse_cons]
    refine Distinct.append hr hk.valued.asKey (fun p hp => ?_) fun n hn => (hv n hn).valued
    rw [← Bool.not_eq_true]
    intro hs
    rw [Reading.hasKey, List.any_eq_false] at hnew
    exact hnew p (List.mem_reverse.1 hp) hs

theorem Reading.Run.sound {entries : List Entry} (h : r.Run directives entries r')
    (hr : r.Sound directives.version) : r'.Sound directives.version := by
  induction h with
  | nil r => exact hr
  | cons hadds _ ih => exact ih (hadds.sound hr)

end reading

theorem Read.distinct {directives : Directives} {label : Label} {pairs : List (Node × Option Node)}
    {l : Option Layout} (h : Read directives (map label pairs) l) :
    Distinct directives.version pairs := by
  cases h with
  | empty h => exact absurd rfl ((leaf_of_empty? h).ne_map label pairs)
  | layout h =>
    rcases ofLayout?_cases h with hleaf | ⟨offset, r, hrun, hc⟩
    · exact absurd rfl (hleaf.ne_map label pairs)
    · cases hc
      exact hrun.sound .nil

end Node

/-- No two keys of the map at the root are scalars with the same value. -/
theorem distinct_of_document? {text : String} {label : Label} {pairs : List (Node × Option Node)}
    (h : document? text = some (some (.map label pairs))) :
    ∃ version, version? text = some version ∧ Node.Distinct version pairs := by
  obtain ⟨directives, hversion, l, hread⟩ := read_of_document? h
  exact ⟨directives.version, hversion, hread.distinct⟩

end Yaml

end Seedbed
