import Seedbed.Proofs.Yaml.Objects
import Seedbed.Proofs.Yaml.Records
import Seedbed.Proofs.Yaml.Values

/-! The evaluation of nodes whose scalars have values that can be described. Every object that is
completed and every result that is kept for later uses can be described as well, so in no record of
a text there stands an integer of any size, and each reference in one is to a collection around it.
-/

namespace Seedbed

namespace Yaml

/-! ### Links -/

namespace Linked

inductive Describable : Linked → Prop
  | scalar {number : Option Nat} {label : Label} {s : Scalar} (h : s.value.IsScalar) :
      Describable (.scalar number label s)
  | seq {number : Option Nat} {label : Label} {items : List Linked}
      (h : ∀ l ∈ items, Describable l) : Describable (.seq number label items)
  | map {number : Option Nat} {label : Label} {pairs : List (Linked × Option Linked)}
      (hk : ∀ p ∈ pairs, Describable p.1) (hv : ∀ p ∈ pairs, ∀ l, p.2 = some l → Describable l) :
      Describable (.map number label pairs)
  | reference (name : String) (number : Nat) : Describable (.alias name number)
  | dangling (name : String) : Describable (.dangling name)

theorem resolve_describable (name : String) (anchors : Anchors) :
    (resolve name anchors).Describable := by
  unfold resolve
  split
  · exact .reference name _
  · exact .dangling name

theorem ofItems_describable {items : List Node}
    (h : ∀ n ∈ items, ∀ anchors, (ofNode n anchors).1.Describable) (anchors : Anchors) :
    ∀ l ∈ (ofItems items anchors).1, l.Describable := by
  induction items generalizing anchors with
  | nil => exact nofun
  | cons item items ih =>
    rw [List.forall_mem_cons] at h
    exact List.forall_mem_cons.2 ⟨h.1 anchors, ih h.2 _⟩

theorem ofPairs_describable {pairs : List (Node × Option Node)}
    (hk : ∀ p ∈ pairs, ∀ anchors, (ofNode p.1 anchors).1.Describable)
    (hv : ∀ p ∈ pairs, ∀ n, p.2 = some n → ∀ anchors, (ofNode n anchors).1.Describable)
    (anchors : Anchors) :
    (∀ p ∈ (ofPairs pairs anchors).1, p.1.Describable) ∧
      ∀ p ∈ (ofPairs pairs anchors).1, ∀ l, p.2 = some l → l.Describable := by
  induction pairs generalizing anchors with
  | nil => exact ⟨nofun, nofun⟩
  | cons p pairs ih =>
    obtain ⟨key, value⟩ := p
    rw [List.forall_mem_cons] at hk hv
    cases value with
    | none =>
      obtain ⟨hks, hvs⟩ := ih hk.2 hv.2 (ofNode key anchors).2
      exact ⟨List.forall_mem_cons.2 ⟨hk.1 anchors, hks⟩, List.forall_mem_cons.2 ⟨nofun, hvs⟩⟩
    | some v =>
      obtain ⟨hks, hvs⟩ := ih hk.2 hv.2 (ofNode v (ofNode key anchors).2).2
      refine ⟨List.forall_mem_cons.2 ⟨hk.1 anchors, hks⟩, List.forall_mem_cons.2 ⟨?_, hvs⟩⟩
      rintro _ ⟨⟩
      exact hv.1 v rfl _

theorem ofNode_describable {n : Node} (h : n.Describable) (anchors : Anchors) :
    (ofNode n anchors).1.Describable := by
  induction h generalizing anchors with
  | reference name => exact resolve_describable name anchors
  | scalar h => exact .scalar h
  | @seq label items h ih => exact .seq (ofItems_describable ih _)
  | @map label pairs hk hv ihk ihv =>
    obtain ⟨hkeys, hvalues⟩ := ofPairs_describable ihk ihv (enter label anchors).2
    exact .map hkeys hvalues

theorem ofRoot_describable {root : Node} (h : root.Describable) : (ofRoot root).Describable :=
  ofNode_describable h []

/-! ### Nodes with an anchor -/

def Nodes.Describable (nodes : Nodes) : Prop := ∀ n ∈ nodes, n.2.Describable

theorem numbered_describable (number : Option Nat) {node : Linked} (h : node.Describable) :
    Nodes.Describable (numbered number node) := by
  cases number with
  | none => exact nofun
  | some n => exact List.forall_mem_singleton.2 h

theorem anchoredItems_describable {items : List Linked}
    (h : ∀ l ∈ items, Nodes.Describable l.anchored) : Nodes.Describable (anchoredItems items) := by
  induction items with
  | nil => exact nofun
  | cons item items ih =>
    rw [List.forall_mem_cons] at h
    exact List.forall_mem_append.2 ⟨h.1, ih h.2⟩

theorem anchoredPairs_describable {pairs : List (Linked × Option Linked)}
    (hk : ∀ p ∈ pairs, Nodes.Describable p.1.anchored)
    (hv : ∀ p ∈ pairs, ∀ l, p.2 = some l → Nodes.Describable l.anchored) :
    Nodes.Describable (anchoredPairs pairs) := by
  induction pairs with
  | nil => exact nofun
  | cons p pairs ih =>
    obtain ⟨key, value⟩ := p
    rw [List.forall_mem_cons] at hk hv
    cases value with
    | none =>
      rw [anchoredPairs]
      exact List.forall_mem_append.2 ⟨List.forall_mem_append.2 ⟨hk.1, nofun⟩, ih hk.2 hv.2⟩
    | some v =>
      rw [anchoredPairs]
      exact List.forall_mem_append.2
        ⟨List.forall_mem_append.2 ⟨hk.1, hv.1 v rfl⟩, ih hk.2 hv.2⟩

theorem anchored_describable {l : Linked} (h : l.Describable) : Nodes.Describable l.anchored := by
  induction h with
  | scalar h => exact numbered_describable _ (.scalar h)
  | seq h ih =>
    exact List.forall_mem_append.2 ⟨numbered_describable _ (.seq h), anchoredItems_describable ih⟩
  | map hk hv ihk ihv =>
    exact List.forall_mem_append.2
      ⟨numbered_describable _ (.map hk hv), anchoredPairs_describable ihk ihv⟩
  | reference _ _ | dangling _ => exact nofun

theorem Nodes.Describable.lookup {nodes : Nodes} (h : nodes.Describable) {number : Nat}
    {node : Linked} (hn : nodes.lookup number = some node) : node.Describable := by
  obtain ⟨before, after, rfl, -⟩ := List.lookup_eq_some_iff.1 hn
  exact h (number, node) (List.mem_append_right _ (.head _))

end Linked

/-! ### Evaluation -/

structure Memory.Describable (m : Memory) : Prop where
  uses : ∀ u ∈ m.uses, u.2.result.Describable
  heap : m.heap.Describable

namespace Evaluation

/-- An evaluation has a result with the given property, if it has one, and keeps only what can be
described. -/
def Gives {α : Type} (P : α → Prop) (a : Evaluation α) : Prop :=
  ∀ m : Memory, m.Describable →
    (a.run.run m).2.Describable ∧ ∀ x, (a.run.run m).1 = .ok x → P x

section gives

variable {α β : Type} {P : α → Prop} {Q : β → Prop}

theorem Gives.pure {x : α} (h : P x) : Gives P (pure x) := by
  intro m hm
  refine ⟨hm, ?_⟩
  rintro _ ⟨⟩
  exact h

theorem Gives.throw (e : Failure) : Gives P (throw e) := fun _ hm => ⟨hm, nofun⟩

theorem Gives.bind {a : Evaluation α} {f : α → Evaluation β} (ha : Gives P a)
    (hf : ∀ x, P x → Gives Q (f x)) : Gives Q (a >>= f) := by
  intro m hm
  have hrun : (a >>= f).run.run m = (match (a.run.run m).1 with
      | .ok x => (f x).run.run (a.run.run m).2
      | .error e => (.error e, (a.run.run m).2) : Except Failure β × Memory) := by
    rw [ExceptT.run_bind, StateT.run_bind]
    rcases a.run.run m with ⟨_ | _, _⟩
    · rfl
    · rfl
  obtain ⟨hm, hx⟩ := ha m hm
  rw [hrun]
  cases hr : (a.run.run m).1 with
  | error e => exact ⟨hm, nofun⟩
  | ok x => exact hf x (hx x hr) _ hm

theorem Gives.ite {c : Prop} [Decidable c] {a b : Evaluation α} (ha : Gives P a) (hb : Gives P b) :
    Gives P (if c then a else b) := by
  split
  · exact ha
  · exact hb

theorem Gives.map {a : Evaluation α} {f : α → β} (ha : Gives P a) (hf : ∀ x, P x → Q (f x)) :
    Gives Q (f <$> a) := by
  rw [map_eq_pure_bind]
  exact ha.bind fun x hx => .pure (hf x hx)

theorem gives_check {c : Prop} [Decidable c] {e : Failure} {f : PUnit → Evaluation β}
    (hf : Gives Q (f ⟨⟩)) : Gives Q (if c then throw e >>= f else f ⟨⟩) :=
  .ite (.bind (.throw (P := fun _ => False) e) nofun) hf

theorem Gives.get : Gives Memory.Describable get := by
  intro m hm
  refine ⟨hm, ?_⟩
  rintro _ ⟨⟩
  exact hm

theorem Gives.set {m : Memory} (h : m.Describable) : Gives (fun _ => True) (set m) :=
  fun _ _ => ⟨h, fun _ _ => trivial⟩

theorem Gives.modify {f : Memory → Memory} (h : ∀ m, m.Describable → (f m).Describable) :
    Gives (fun _ => True) (modify f) :=
  fun m hm => ⟨h m hm, fun _ _ => trivial⟩

theorem Gives.mapM {f : α → Evaluation β} {as : List α} (h : ∀ a ∈ as, Gives Q (f a)) :
    Gives (fun bs => ∀ b ∈ bs, Q b) (as.mapM f) := by
  induction as with
  | nil => exact .pure nofun
  | cons a as ih =>
    rw [List.forall_mem_cons] at h
    rw [List.mapM_cons]
    refine .bind h.1 fun b hb => .bind (ih h.2) fun bs hbs => .pure ?_
    exact List.forall_mem_cons.2 ⟨hb, hbs⟩

end gives

theorem create_gives : Gives (fun _ => True) create :=
  fun _ hm => ⟨⟨hm.uses, hm.heap⟩, fun _ _ => trivial⟩

theorem complete_gives (id : Nat) {body : Body} (h : body.Describable) :
    Gives Result.Describable (complete id body) :=
  .bind (.modify fun _ hm => ⟨hm.uses, List.forall_mem_cons.2 ⟨h, hm.heap⟩⟩) fun _ _ =>
    .pure (.object id)

theorem enter_gives (number : Option Nat) {result : Result} (h : result.Describable) :
    Gives (fun _ => True) (enter number result) := by
  unfold enter
  cases number with
  | none => exact .pure trivial
  | some n =>
    refine .modify fun m hm => ⟨List.forall_mem_cons.2 ⟨h, fun u hu => ?_⟩, hm.heap⟩
    exact hm.uses u (List.mem_of_mem_filter hu)

theorem collect_gives (number : Option Nat) {body : Evaluation Body}
    (h : Gives Body.Describable body) : Gives Result.Describable (collect number body) :=
  .bind create_gives fun id _ => .bind (enter_gives number (.object id)) fun _ _ =>
    .bind h fun _ hbody => complete_gives id hbody

theorem scalar_gives (number : Option Nat) {v : Value} (h : v.IsScalar) :
    Gives Result.Describable (scalar number v) := by
  have hrest (result : Result) (hr : result.Describable) :
      Gives Result.Describable (do enter number result; return result) :=
    .bind (enter_gives number hr) fun _ _ => .pure hr
  have hobject : Gives Result.Describable (do
      let result ← complete (← create) (.atom v)
      enter number result
      return result) :=
    .bind create_gives fun id _ => .bind (complete_gives id (.atom h)) hrest
  cases h with
  | instant t | bytes bs => exact hobject
  | null | bool _ | number _ | text _ | symbol _ =>
    exact .bind (.pure (.value (by constructor))) hrest

theorem describable_map {uses : List (Nat × Use)} (h : ∀ u ∈ uses, u.2.result.Describable)
    (number : Nat) {f : Use → Use} (hf : ∀ u, (f u).result = u.result) :
    ∀ u ∈ uses.map fun (i, u) => (i, if i = number then f u else u), u.2.result.Describable := by
  refine List.forall_mem_map.2 ?_
  rintro ⟨i, u⟩ hu
  dsimp only
  split
  · rw [hf]
    exact h _ hu
  · exact h _ hu

theorem useAgain_gives (name : String) (number : Nat) (source : Option Linked) :
    Gives Result.Describable (useAgain name number source) := by
  refine .bind .get fun m hm => ?_
  split
  · rename_i result count w hlookup
    have hresult : result.Describable := by
      obtain ⟨before, after, hu, -⟩ := List.lookup_eq_some_iff.1 hlookup
      exact hm.uses (number, { result, count, weight := w })
        (hu ▸ List.mem_append_right _ List.mem_cons_self)
    have hcounted :=
      describable_map hm.uses number (f := fun u => { u with count := count + 1 }) fun _ => rfl
    refine .bind (.set ⟨describable_map hcounted number (f := fun u => { u with weight := _ })
      fun _ => rfl, hm.heap⟩) fun _ _ => .ite (.throw _) (.pure hresult)
  · exact .throw _

/-! ### Merges -/

/-- Entries with values that can be described, or absent. -/
def Mergeable (entries : List (Result × Result)) : Prop :=
  ∀ e ∈ entries, e.2 ≠ .absent → e.2.Describable

inductive Addition.Describable : Addition → Prop
  | pair (name : String) {key value : Result} (hk : key.Describable) (hv : value.Describable) :
      Describable (.pair name key value)
  | merged {entries : List (Result × Result)} (h : Mergeable entries) :
      Describable (.merged entries)

theorem Addition.Describable.fields {heap : Heap} {before : List (String × Result)} {a : Addition}
    (h : a.Describable) (hb : ∀ f ∈ before, f.2 ≠ .absent → f.2.Describable) :
    ∀ f ∈ a.fields heap before, f.2 ≠ .absent → f.2.Describable := by
  cases h with
  | pair name hk hv =>
    exact List.forall_mem_append.2 ⟨hb, List.forall_mem_singleton.2 fun _ => hv⟩
  | merged h =>
    refine List.foldlRecOn _ _ (motive := fun fields : List (String × Result) =>
      ∀ f ∈ fields, f.2 ≠ .absent → f.2.Describable) hb fun before hb e he => ?_
    obtain ⟨key, value⟩ := e
    dsimp only
    split
    · split
      · exact hb
      · exact List.forall_mem_append.2 ⟨hb, List.forall_mem_singleton.2 (h _ he)⟩
    · exact hb

theorem Addition.Describable.entries {before : List (Result × Result)} {a : Addition}
    (h : a.Describable) (hb : Mergeable before) : Mergeable (a.entries before) := by
  cases h with
  | pair name hk hv =>
    rw [Addition.entries]
    split
    · refine List.forall_mem_map.2 fun e he => ?_
      split
      · exact fun _ => hv
      · exact hb e he
    · exact List.forall_mem_append.2 ⟨hb, List.forall_mem_singleton.2 fun _ => hv⟩
  | merged h =>
    refine List.foldlRecOn _ _ (motive := Mergeable) hb fun before hb e he => ?_
    split
    · exact hb
    · exact List.forall_mem_append.2 ⟨hb, List.forall_mem_singleton.2 (h e he)⟩

theorem members_describable {results : List Result} (h : ∀ r ∈ results, r.Describable) :
    ∀ r ∈ members results, r.Describable := by
  refine List.foldlRecOn _ _ (motive := fun rs : List Result => ∀ r ∈ rs, r.Describable)
    (List.forall_mem_nil _) fun before hb r hr => ?_
  split
  · exact hb
  · exact List.forall_mem_append.2 ⟨hb, List.forall_mem_singleton.2 (h r hr)⟩

theorem describable_getD {items : List Result} (h : ∀ r ∈ items, r.Describable) (i : Nat)
    (hne : items[i]?.getD .absent ≠ .absent) : (items[i]?.getD .absent).Describable := by
  cases hi : items[i]? with
  | none =>
    rw [hi] at hne
    exact absurd rfl hne
  | some r => exact h r (List.mem_of_getElem? hi)

theorem entryOf_gives {r : Result} :
    Gives (fun e => e.2 ≠ .absent → e.2.Describable) (entryOf r) := by
  refine .bind .get fun m hm => ?_
  split
  · exact .pure (describable_getD (List.forall_mem_map.2 fun c _ => .value (.text _)) 1)
  · split
    · next hbody =>
      cases hm.heap.lookup hbody with
      | list h => exact .pure (describable_getD h 1)
    · next hbody =>
      cases hm.heap.lookup hbody with
      | set h => exact .pure (describable_getD h 1)
    · exact .pure (describable_getD (List.forall_mem_map.2 fun b _ => .value (.number _)) 1)
    · next hbody =>
      cases hm.heap.lookup hbody with
      | dictionary hk hv =>
        refine .bind (.mapM (Q := Result.Describable) fun e he => ?_) fun items hitems =>
          .pure (describable_getD hitems 1)
        have he := List.mem_of_mem_take he
        refine .bind create_gives fun id _ => complete_gives id (.list ?_)
        exact List.forall_mem_cons.2 ⟨hk e he, List.forall_mem_singleton.2 (hv e he)⟩
    · exact .throw _
  · exact .throw _

/-! ### Nodes -/

structure Access.Describable (a : Access) : Prop where
  result : ∀ number, Gives Result.Describable (a.result number)
  merged : ∀ deep number, Gives Mergeable (a.merged deep number)

def pairsOf : Linked → List (Linked × Option Linked)
  | .map _ _ pairs => pairs
  | _ => []

/-- The evaluation of a node, of the nodes in its pairs and of what it adds where it is merged. -/
structure Evaluates (a : Access) (l : Linked) : Prop where
  result : Gives Result.Describable (ofLinked a l)
  merged : ∀ deep, Gives Mergeable (mergedOf a deep l)
  keys : ∀ p ∈ pairsOf l, Gives Result.Describable (ofLinked a p.1)
  values : ∀ p ∈ pairsOf l, ∀ v, p.2 = some v → Gives Result.Describable (ofLinked a v)

section nodes

variable {a : Access}

theorem ofItems_gives {items : List Linked} (h : ∀ l ∈ items, Evaluates a l) :
    Gives (fun rs => ∀ r ∈ rs, r.Describable) (ofItems a items) := by
  induction items with
  | nil => exact .pure nofun
  | cons item items ih =>
    rw [List.forall_mem_cons] at h
    refine .bind h.1.result fun r hr => .bind (ih h.2) fun rs hrs => .pure ?_
    exact List.forall_mem_cons.2 ⟨hr, hrs⟩

theorem under_gives {value : Option Linked}
    (hv : ∀ l, value = some l → Gives Result.Describable (ofLinked a l)) {β : Type} {Q : β → Prop}
    {f : Result → Evaluation β} (hf : ∀ r : Result, r.Describable → Gives Q (f r)) :
    Gives Q (do
      let r ← match value with
        | some v => ofLinked a v
        | none => pure (.value .null)
      f r) := by
  cases value with
  | none => exact .bind (.pure (.value .null)) hf
  | some v => exact .bind (hv v rfl) hf

theorem ofOrdered_gives {items : List Linked} (h : ∀ l ∈ items, Evaluates a l)
    {before : List (Result × Result)} (hk : ∀ e ∈ before, e.1.Describable)
    (hv : ∀ e ∈ before, e.2.Describable) :
    Gives (fun es => (∀ e ∈ es, e.1.Describable) ∧ ∀ e ∈ es, e.2.Describable)
      (ofOrdered a before items) := by
  induction items generalizing before with
  | nil => exact .pure ⟨hk, hv⟩
  | cons item rest ih =>
    rw [List.forall_mem_cons] at h
    cases item with
    | map number label pairs =>
      cases pairs with
      | nil => exact .pure ⟨hk, hv⟩
      | cons p more =>
        obtain ⟨key, value⟩ := p
        rw [ofOrdered]
        refine .bind (h.1.keys _ (.head _)) fun k hkey =>
          under_gives (h.1.values _ (.head _)) fun v hvalue => gives_check (ih h.2 ?_ ?_)
        · exact List.forall_mem_append.2 ⟨hk, List.forall_mem_singleton.2 hkey⟩
        · exact List.forall_mem_append.2 ⟨hv, List.forall_mem_singleton.2 hvalue⟩
    | scalar _ _ _ | seq _ _ _ | «alias» _ _ | dangling _ => exact .pure ⟨hk, hv⟩

theorem ofMembers_gives {pairs : List (Linked × Option Linked)}
    (h : ∀ p ∈ pairs, Gives Result.Describable (ofLinked a p.1)) :
    Gives (fun rs => ∀ r ∈ rs, r.Describable) (ofMembers a pairs) := by
  induction pairs with
  | nil => exact .pure nofun
  | cons p rest ih =>
    obtain ⟨key, value⟩ := p
    rw [List.forall_mem_cons] at h
    rw [ofMembers]
    refine gives_check (.bind h.1 fun r hr => .bind (ih h.2) fun rs hrs => .pure ?_)
    exact List.forall_mem_cons.2 ⟨hr, hrs⟩

theorem ofPairs_gives {pairs : List (Linked × Option Linked)}
    (hk : ∀ p ∈ pairs, Evaluates a p.1) (hv : ∀ p ∈ pairs, ∀ l, p.2 = some l → Evaluates a l) :
    Gives (fun additions => ∀ d ∈ additions, d.Describable) (ofPairs a pairs) := by
  induction pairs with
  | nil => exact .pure nofun
  | cons p rest ih =>
    obtain ⟨key, value⟩ := p
    rw [List.forall_mem_cons] at hk hv
    have hrest (d : Addition) (hd : d.Describable) :
        Gives (fun additions => ∀ d ∈ additions, d.Describable)
          (do return d :: (← ofPairs a rest)) :=
      .bind (ih hk.2 hv.2) fun ds hds => .pure (List.forall_mem_cons.2 ⟨hd, hds⟩)
    cases value with
    | none =>
      rw [ofPairs]
      refine .ite (.bind (.throw (P := Addition.Describable) _) hrest) ?_
      exact .bind hk.1.result fun k hk =>
        .bind (.pure (.value .null)) fun v hv => .bind (.pure (.pair _ hk hv)) hrest
    | some v =>
      have hv := hv.1 v rfl
      rw [ofPairs]
      refine .ite (.bind ((hv.merged true).map fun _ => .merged) hrest) ?_
      exact .bind hk.1.result fun k hk =>
        .bind hv.result fun v hv => .bind (.pure (.pair _ hk hv)) hrest

theorem mergedOfItems_gives {items : List Linked} (h : ∀ l ∈ items, Evaluates a l) :
    Gives Mergeable (mergedOfItems a items) := by
  induction items with
  | nil => exact .pure nofun
  | cons item items ih =>
    rw [List.forall_mem_cons] at h
    exact .bind (h.1.merged false) fun es hes => .bind (ih h.2) fun more hmore =>
      .pure (List.forall_mem_append.2 ⟨hes, hmore⟩)

theorem Evaluates.seq {number : Option Nat} {label : Label} {items : List Linked}
    (h : ∀ l ∈ items, Evaluates a l) : Evaluates a (.seq number label items) where
  result := by
    have hentries := ofOrdered_gives h (List.forall_mem_nil _) (List.forall_mem_nil _)
    rw [ofLinked]
    refine collect_gives number (.ite (.bind hentries fun es hes => ?_) ?_)
    · exact .pure (.dictionary hes.1 hes.2)
    · exact .bind (ofItems_gives h) fun rs hrs => .pure (.list hrs)
  merged deep := by
    rw [mergedOf]
    exact .ite (mergedOfItems_gives h) (.throw _)
  keys := List.forall_mem_nil _
  values := List.forall_mem_nil _

theorem describable_foldl_fields {heap : Heap} {additions : List Addition}
    (h : ∀ d ∈ additions, d.Describable) :
    ∀ f ∈ additions.foldl (Addition.fields heap) [], f.2 ≠ .absent → f.2.Describable :=
  List.foldlRecOn additions _ (motive := fun fields : List (String × Result) =>
    ∀ f ∈ fields, f.2 ≠ .absent → f.2.Describable) (List.forall_mem_nil _)
    fun _ hb d hd => (h d hd).fields hb

theorem mergeable_foldl_entries {additions : List Addition} (h : ∀ d ∈ additions, d.Describable) :
    Mergeable (additions.foldl Addition.entries []) :=
  List.foldlRecOn additions _ (motive := Mergeable) (List.forall_mem_nil _)
    fun _ hb d hd => (h d hd).entries hb

theorem Evaluates.map {number : Option Nat} {label : Label}
    {pairs : List (Linked × Option Linked)} (hk : ∀ p ∈ pairs, Evaluates a p.1)
    (hv : ∀ p ∈ pairs, ∀ l, p.2 = some l → Evaluates a l) :
    Evaluates a (.map number label pairs) where
  result := by
    rw [ofLinked]
    refine collect_gives number (.ite ?_ ?_)
    · exact .bind (ofMembers_gives fun p hp => (hk p hp).result) fun rs hrs =>
        .pure (.set (members_describable hrs))
    · refine .bind (ofPairs_gives hk hv) fun ds hds => .bind .get fun m _ => .pure (.record ?_)
      exact fun f hf => describable_foldl_fields hds f (mem_fieldsOf hf)
  merged deep := by
    rw [mergedOf]
    refine .ite ?_ (.bind (ofPairs_gives hk hv) fun ds hds => .pure (mergeable_foldl_entries hds))
    exact .bind (ofMembers_gives fun p hp => (hk p hp).result) fun rs _ =>
      .mapM fun r _ => entryOf_gives
  keys p hp := (hk p hp).result
  values p hp v hp' := (hv p hp v hp').result

theorem Evaluates.reference (ha : a.Describable) (name : String) (number : Nat) :
    Evaluates a (.alias name number) where
  result := by
    have hagain := useAgain_gives name number (a.node number)
    have hfirst : Gives (fun _ => True) (discard (a.result number)) :=
      .bind (ha.result number) fun _ _ => .pure trivial
    rw [ofLinked]
    exact .bind .get fun m _ => .ite (.bind hfirst fun _ _ => hagain) hagain
  merged deep := ha.merged deep number
  keys := List.forall_mem_nil _
  values := List.forall_mem_nil _

theorem evaluates_of_describable (ha : a.Describable) {l : Linked} (h : l.Describable) :
    Evaluates a l := by
  induction h with
  | @scalar number label s h =>
    exact ⟨scalar_gives number h, fun deep => .throw _, List.forall_mem_nil _,
      List.forall_mem_nil _⟩
  | seq _ ih => exact .seq ih
  | map _ _ ihk ihv => exact .map ihk ihv
  | reference name number => exact .reference ha name number
  | dangling name =>
    exact ⟨.throw _, fun deep => .throw _, List.forall_mem_nil _, List.forall_mem_nil _⟩

end nodes

theorem access_describable (version : Version) {nodes : Linked.Nodes} (h : nodes.Describable)
    (depth : Nat) : (access version nodes depth).Describable := by
  induction depth with
  | zero => exact ⟨fun number => .throw _, fun deep number => .throw _⟩
  | succ depth ih =>
    have hnode {number : Nat} {node : Linked} (hn : nodes.lookup number = some node) :
        Evaluates (access version nodes depth) node :=
      evaluates_of_describable ih (h.lookup hn)
    refine ⟨fun number => ?_, fun deep number => ?_⟩
    · dsimp only [access]
      split
      · exact (hnode ‹_›).result
      · exact .throw _
    · dsimp only [access]
      split
      · exact (hnode ‹_›).merged deep
      · exact .throw _

end Evaluation

theorem describable_of_value {version : Version} {nodes : Linked.Nodes} (hn : nodes.Describable)
    {l : Linked} (h : l.Describable) {v : Value} (hv : l.value version nodes = .ok v) :
    v.Describable 0 := by
  have ha := Evaluation.access_describable version hn (Evaluation.maxDepth nodes)
  obtain ⟨hm, hx⟩ := (Evaluation.evaluates_of_describable ha h).result {} ⟨nofun, nofun⟩
  simp only [Linked.value] at hv
  split at hv
  · next result m hrun =>
    cases hv
    rw [hrun] at hm hx
    exact hm.heap.valueOf (hx result rfl)
  · cases hv

section records

variable {version : Version} {nodes : Linked.Nodes}

/-- The record of a pair can be described if what stands under its key can. -/
theorem describable_of_record (hn : nodes.Describable) {pair : Linked × Option Linked}
    {entry : String × Value} (h : record version nodes pair = .ok entry)
    (hv : ∀ l, pair.2 = some l → l.Describable) : entry.2.Describable 0 := by
  obtain ⟨label, value⟩ := entry
  have hunder := under_of_record h
  cases hp : pair.2 with
  | none =>
    rw [hp] at hunder
    cases hunder
    exact .scalar .null
  | some l =>
    rw [hp] at hunder
    exact describable_of_value hn (hv l hp) hunder

theorem describable_of_mapM_record (hn : nodes.Describable) {pairs : List (Linked × Option Linked)}
    {entries : List (String × Value)} (h : pairs.mapM (record version nodes) = .ok entries)
    (hv : ∀ p ∈ pairs, ∀ l, p.2 = some l → l.Describable) : ∀ e ∈ entries, e.2.Describable 0 := by
  have hall := forall₂_of_mapM h
  clear h
  induction hall with
  | nil => exact nofun
  | cons hrecord _ ih =>
    rw [List.forall_mem_cons] at hv ⊢
    exact ⟨describable_of_record hn hrecord hv.1, ih hv.2⟩

end records

/-- In no record of a text there stands an integer of any size, no record is absent, and each
reference in one is to a collection around it. -/
theorem describable_of_records {text : String} {m : Records} (h : records text = .ok m)
    {e : String × Value} (he : e ∈ m.entries) : e.2.Describable 0 := by
  rcases exists_entered h with ⟨-, rfl⟩ | ⟨version, label, pairs, entries, hd, -, rfl, hentered⟩
  · cases he
  · obtain ⟨number, linked, hroot, hread⟩ := hentered.read
    obtain ⟨directives, -, l, hnode⟩ := read_of_document? hd
    have hlinked := Linked.ofRoot_describable hnode.describable
    rw [hroot] at hlinked
    have hnodes := Linked.anchored_describable hlinked
    cases hlinked with
    | map hk hv => exact describable_of_mapM_record hnodes hread hv e (Keyed.mem_ofList he)

end Yaml

end Seedbed
