import Seedbed.Proofs.Database.Transaction

/-! Transactions that fail. The first of BEGIN, the body and COMMIT to be rejected gives the error
that is thrown, and ROLLBACK ends the transaction before the connection is given back. If ROLLBACK
is rejected too neither holds: its own error is thrown, and the transaction is left open. -/

namespace Seedbed

namespace Database

variable {σ α : Type}

/-! ### The error that is thrown -/

/-- The first of BEGIN, the body and COMMIT that is rejected is rejected with this error. The body
may be any step. -/
inductive Rejected (link : Link σ) (body : Client → Action σ α) (w : σ) : Thrown → σ → Prop
  | unbegun {e : Thrown} {w₁ : σ} (begun : link.send .connection "BEGIN" none w = (.error e, w₁)) :
      Rejected link body w e w₁
  | failed {o : Outcome} {e : Thrown} {w₁ w₂ : σ}
      (begun : link.send .connection "BEGIN" none w = (.ok o, w₁))
      (threw : body .inTransaction w₁ = (.error e, w₂)) : Rejected link body w e w₂
  | uncommitted {o : Outcome} {a : α} {e : Thrown} {w₁ w₂ w₃ : σ}
      (begun : link.send .connection "BEGIN" none w = (.ok o, w₁))
      (answered : body .inTransaction w₁ = (.ok a, w₂))
      (ended : link.send .connection "COMMIT" none w₂ = (.error e, w₃)) :
      Rejected link body w e w₃

/-- The error that is thrown in the end. That of ROLLBACK stands in for the first one, and that of
giving the connection back for both. -/
def reported (first : Thrown) (undone : Except Thrown Outcome) (released : Except Thrown Unit) :
    Thrown :=
  match released, undone with
  | .error e, _ => e
  | .ok _, .error e => e
  | .ok _, .ok _ => first

section error

variable {link : Link σ} {body : Client → Action σ α} {w w₁ w₂ : σ} {e : Thrown}

theorem Rejected.run (h : Rejected link body w e w₁) :
    (do
      Client.control link "BEGIN"
      let a ← body .inTransaction
      Client.control link "COMMIT"
      return a : Action σ α) w = (.error e, w₁) := by
  cases h with
  | unbegun begun => exact Action.bind_error (control_run begun)
  | failed begun threw => exact (Action.bind_ok (control_run begun)).trans (Action.bind_error threw)
  | uncommitted begun answered ended =>
    exact (Action.bind_ok (control_run begun)).trans
      ((Action.bind_ok answered).trans (Action.bind_error (control_run ended)))

theorem Rejected.inBrackets {undone : Except Thrown Outcome} (h : Rejected link body w e w₁)
    (hundone : link.send .connection "ROLLBACK" none w₁ = (undone, w₂)) :
    Client.inBrackets link body w = (undone.bind fun _ => .error e, w₂) := by
  refine (Action.tryCatch_error h.run).trans ?_
  cases undone with
  | ok o => exact Action.bind_ok (control_run hundone)
  | error e' => exact Action.bind_error (control_run hundone)

end error

def Link.rejecting (statements : List String) : Link Unit where
  connect := return ()
  send _ sql _ :=
    if sql ∈ statements then throw (.failure (.plain sql)) else return .ofRows [] none
  release := return ()
  close := return ()

def Body.ofQuery (sql : String) : Body Outcome :=
  .query sql none fun
    | .ok o => .done o
    | .error e => .raise e

/-- A transaction in which BEGIN, the body or COMMIT is rejected sends ROLLBACK and gives the
connection back, and it throws the first error just as far as these two throw none. -/
theorem transaction_rejected {link : Link σ} {body : Client → Action σ α} {w w₁ w₂ : σ}
    {e : Thrown} (connected : link.connect w = (.ok (), w₁))
    (h : Rejected link body w₁ e w₂) : ∃ undone w₃ released w₄,
      link.send .connection "ROLLBACK" none w₂ = (undone, w₃) ∧
      link.release w₃ = (released, w₄) ∧
      Client.transaction link .whole body w = (.error (reported e undone released), w₄) := by
  obtain ⟨undone, w₃, hundone⟩ : ∃ undone w₃,
      link.send .connection "ROLLBACK" none w₂ = (undone, w₃) := ⟨_, _, rfl⟩
  obtain ⟨released, w₄, hreleased⟩ : ∃ released w₄, link.release w₃ = (released, w₄) := ⟨_, _, rfl⟩
  refine ⟨undone, w₃, released, w₄, hundone, hreleased, ?_⟩
  rw [transaction_of_connected connected (h.inBrackets hundone) hreleased]
  cases released with
  | error e' => rfl
  | ok u => cases undone <;> rfl

/-- A query is rejected and ROLLBACK is not, so the error of the query is thrown. -/
theorem transaction_rejected_query :
    (Link.rejecting ["SELECT 1"]).connect () = (.ok (), ()) ∧
    Rejected (.rejecting ["SELECT 1"])
      ((Body.ofQuery "SELECT 1").perform (.rejecting ["SELECT 1"])) ()
      (.failure (.plain "SELECT 1")) () ∧
    ∃ undone w₃ released w₄,
      (Link.rejecting ["SELECT 1"]).send .connection "ROLLBACK" none () = (undone, w₃) ∧
      (Link.rejecting ["SELECT 1"]).release w₃ = (released, w₄) ∧
      Client.transaction (.rejecting ["SELECT 1"]) .whole
        ((Body.ofQuery "SELECT 1").perform (.rejecting ["SELECT 1"])) () =
          (.error (reported (.failure (.plain "SELECT 1")) undone released), w₄) := by
  have h : Rejected (.rejecting ["SELECT 1"])
      ((Body.ofQuery "SELECT 1").perform (.rejecting ["SELECT 1"])) ()
      (.failure (.plain "SELECT 1")) () := .failed rfl rfl
  exact ⟨rfl, h, transaction_rejected rfl h⟩

/-- A query is rejected and then ROLLBACK, and nothing tells of the query any more. -/
theorem query_error_lost :
    (Link.rejecting ["SELECT 1", "ROLLBACK"]).connect () = (.ok (), ()) ∧
    Rejected (.rejecting ["SELECT 1", "ROLLBACK"])
      ((Body.ofQuery "SELECT 1").perform (.rejecting ["SELECT 1", "ROLLBACK"])) ()
      (.failure (.plain "SELECT 1")) () ∧
    Client.transaction (.rejecting ["SELECT 1", "ROLLBACK"]) .whole
      ((Body.ofQuery "SELECT 1").perform (.rejecting ["SELECT 1", "ROLLBACK"])) () =
        (.error (.failure (.plain "ROLLBACK")), ()) ∧
    Thrown.failure (.plain "ROLLBACK") ≠ .failure (.plain "SELECT 1") := by
  refine ⟨rfl, .failed rfl rfl, rfl, ?_⟩
  intro h
  injection h with h
  exact absurd h (by decide)

/-! ### Whether a transaction is open -/

namespace Query

def Begins (q : Query) : Prop := q.sql = "BEGIN" ∧ q.answer.isOk = true

def Ends (q : Query) : Prop := (q.sql = "COMMIT" ∨ q.sql = "ROLLBACK") ∧ q.answer.isOk = true

instance : DecidablePred Begins := fun q =>
  inferInstanceAs (Decidable (q.sql = "BEGIN" ∧ q.answer.isOk = true))

instance : DecidablePred Ends := fun q =>
  inferInstanceAs (Decidable ((q.sql = "COMMIT" ∨ q.sql = "ROLLBACK") ∧ q.answer.isOk = true))

theorem not_begins_of_ends {q : Query} (h : q.Ends) : ¬q.Begins := by
  rintro ⟨hbegin, -⟩
  have hends := h.1
  rw [hbegin] at hends
  exact absurd hends (by decide)

theorem control_error (sql : String) (e : Thrown) :
    ¬(control sql (.error e)).Begins ∧ ¬(control sql (.error e)).Ends :=
  ⟨fun h => Bool.false_ne_true h.2, fun h => Bool.false_ne_true h.2⟩

def leavesOpen (opened : Bool) (q : Query) : Bool :=
  if q.Begins then true else if q.Ends then false else opened

theorem leavesOpen_eq_false_iff {opened : Bool} {q : Query} :
    q.leavesOpen opened = false ↔ q.Ends ∨ opened = false ∧ ¬q.Begins := by
  unfold leavesOpen
  by_cases hb : q.Begins
  · have he : ¬q.Ends := fun he => not_begins_of_ends he hb
    simp [hb, he]
  · by_cases he : q.Ends
    · simp [hb, he]
    · simp [hb, he]

end Query

/-- A COMMIT or a ROLLBACK was answered, and no BEGIN after it. -/
def Ended (statements : List Query) : Prop :=
  ∃ before last after, statements = before ++ last :: after ∧ last.Ends ∧ ∀ q ∈ after, ¬q.Begins

/-- No BEGIN was answered at all, or none since the transaction ended. -/
def Closed (statements : List Query) : Prop := (∀ q ∈ statements, ¬q.Begins) ∨ Ended statements

section closed

variable {statements : List Query} {q : Query}

theorem ended_cons_iff : Ended (q :: statements) ↔
    (q.Ends ∧ ∀ q' ∈ statements, ¬q'.Begins) ∨ Ended statements := by
  constructor
  · rintro ⟨before, last, after, hsplit, hends, hafter⟩
    rcases List.cons_eq_append_iff.1 hsplit with ⟨rfl, hlast⟩ | ⟨before, rfl, hrest⟩
    · cases hlast
      exact .inl ⟨hends, hafter⟩
    · exact .inr ⟨before, last, after, hrest, hends, hafter⟩
  · rintro (⟨hends, hafter⟩ | ⟨before, last, after, rfl, hends, hafter⟩)
    · exact ⟨[], q, statements, rfl, hends, hafter⟩
    · exact ⟨q :: before, last, after, rfl, hends, hafter⟩

theorem foldl_leavesOpen (opened : Bool) (statements : List Query) :
    statements.foldl Query.leavesOpen opened = false ↔
      (opened = false ∧ ∀ q ∈ statements, ¬q.Begins) ∨ Ended statements := by
  induction statements generalizing opened with
  | nil =>
    have hnil : ¬Ended [] := by
      rintro ⟨before, last, after, hsplit, -⟩
      simp at hsplit
    simp [hnil]
  | cons q statements ih =>
    rw [List.foldl_cons, ih, ended_cons_iff, Query.leavesOpen_eq_false_iff, List.forall_mem_cons]
    constructor
    · rintro (⟨hends | ⟨hopened, hbegins⟩, hrest⟩ | hended)
      · exact .inr (.inl ⟨hends, hrest⟩)
      · exact .inl ⟨hopened, hbegins, hrest⟩
      · exact .inr (.inr hended)
    · rintro (⟨hopened, hbegins, hrest⟩ | ⟨hends, hrest⟩ | hended)
      · exact .inl ⟨.inr ⟨hopened, hbegins⟩, hrest⟩
      · exact .inl ⟨.inl hends, hrest⟩
      · exact .inr hended

/-- The statements one by one tell whether a transaction is open. -/
theorem closed_iff (statements : List Query) :
    Closed statements ↔ statements.foldl Query.leavesOpen false = false := by
  rw [foldl_leavesOpen, Closed, and_iff_right rfl]

instance (statements : List Query) : Decidable (Closed statements) :=
  decidable_of_iff _ (closed_iff statements).symm

theorem closed_concat_iff :
    Closed (statements ++ [q]) ↔ q.Ends ∨ Closed statements ∧ ¬q.Begins := by
  rw [closed_iff, closed_iff, List.foldl_append, List.foldl_cons, List.foldl_nil,
    Query.leavesOpen_eq_false_iff]

end closed

/-- What a transaction sends last ends it, or it is a ROLLBACK that is rejected. -/
theorem Brackets.last_statement {link : Link σ} {body : Body α} {w w' : σ} {events : List Event}
    {r : Except Thrown α} (h : Brackets link body w events r w') :
    (∃ e, events = [.connect (.error e)]) ∨
      ∃ statements last released,
        events = .connect (.ok ()) ::
          ((statements ++ [last]).map .onConnection ++ [.release released]) ∧
        (last.Ends ∨ ∃ e, last = .control "ROLLBACK" (.error e)) := by
  cases h with
  | unconnected connected => exact .inl ⟨_, rfl⟩
  | committed connected proceeds given =>
    cases proceeds with
    | @committed o o' queries a w₁ w₂ w₃ begun sends ended =>
      exact .inr ⟨.control "BEGIN" (.ok o) :: queries, _, _, rfl, .inl ⟨.inl rfl, rfl⟩⟩
  | rolledBack connected proceeds undone given =>
    rename_i answer _ _ _ _
    cases answer with
    | ok o => exact .inr ⟨_, _, _, rfl, .inl ⟨.inr rfl, rfl⟩⟩
    | error e => exact .inr ⟨_, _, _, rfl, .inr ⟨e, rfl⟩⟩

/-- Whatever was sent on a connection before, a transaction is open on it as it is given back just
if one was still open when ROLLBACK was sent, the last statement, and ROLLBACK was rejected. -/
theorem open_iff_rollback_rejected (link : Link σ) (body : Body α) (w : σ) :
    ∃ events r w',
      Client.transaction link .whole (body.perform link) w = (r, w') ∧
      Client.transaction link.noting .whole (body.perform link.noting) ([], w) =
        (r, (events, w')) ∧
      ((∃ e, events = [.connect (.error e)]) ∨
        ∃ (statements : List Query) (released : Except Thrown Unit),
          events = .connect (.ok ()) :: (statements.map .onConnection ++ [.release released]) ∧
          ∀ before, ¬Closed (before ++ statements) ↔
            ∃ earlier e, statements = earlier ++ [.control "ROLLBACK" (.error e)] ∧
              ¬Closed (before ++ earlier)) := by
  obtain ⟨events, r, w', h⟩ := exists_brackets link body w
  refine ⟨events, r, w', h.run, h.noting.run, ?_⟩
  rcases h.last_statement with hnone | ⟨statements, last, released, rfl, hlast⟩
  · exact .inl hnone
  · refine .inr ⟨statements ++ [last], released, rfl, fun before => ?_⟩
    rw [← List.append_assoc]
    rcases hlast with hends | ⟨e, rfl⟩
    · refine ⟨fun hopen => absurd (closed_concat_iff.2 (.inl hends)) hopen, ?_⟩
      rintro ⟨earlier, e, hsplit, -⟩
      obtain ⟨-, hq⟩ := List.append_inj' hsplit rfl
      cases hq
      exact absurd hends (Query.control_error "ROLLBACK" e).2
    · obtain ⟨hb, he⟩ := Query.control_error "ROLLBACK" e
      rw [closed_concat_iff, or_iff_right he, and_iff_left hb]
      constructor
      · intro hopen
        exact ⟨statements, e, rfl, hopen⟩
      · rintro ⟨earlier, e', hsplit, hopen⟩
        obtain ⟨rfl, -⟩ := List.append_inj' hsplit rfl
        exact hopen

/-- A query is rejected and then ROLLBACK, and the connection is given back as it is. -/
theorem released_open :
    ∃ statements : List Query,
      Client.transaction (Link.rejecting ["SELECT 1", "ROLLBACK"]).noting .whole
        ((Body.ofQuery "SELECT 1").perform (Link.rejecting ["SELECT 1", "ROLLBACK"]).noting)
          ([], ()) =
        (.error (.failure (.plain "ROLLBACK")),
          (.connect (.ok ()) :: (statements.map .onConnection ++ [.release (.ok ())]), ())) ∧
      ¬Closed statements :=
  ⟨[.control "BEGIN" (.ok (.ofRows [] none)),
    { sql := "SELECT 1", parameters := none, answer := .error (.failure (.plain "SELECT 1")) },
    .control "ROLLBACK" (.error (.failure (.plain "ROLLBACK")))], rfl, by decide⟩

end Database

end Seedbed
