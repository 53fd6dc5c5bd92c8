import Seedbed.Database
import Seedbed.Proofs.Action

/-! Transactions as the connection sees them. Whatever is done within a transaction, its queries
stand between one BEGIN and one COMMIT or ROLLBACK, those of transactions within it among them, and
the connection is given back once after the last statement. -/

namespace Seedbed

namespace Database

variable {σ α : Type}

/-! ### What is done within a transaction -/

/-- The calls that are made on a client, one after the other. What comes after a call is chosen by
how it turned out: its error may be caught or not, and an error may be thrown at any place. -/
inductive Body : Type → Type 1
  | done {α : Type} (a : α) : Body α
  | raise {α : Type} (e : Thrown) : Body α
  | query {α : Type} (sql : String) (parameters : Option (List Value))
      (next : Except Thrown Outcome → Body α) : Body α
  | transaction {α β : Type} (inner : Body β) (next : Except Thrown β → Body α) : Body α
  | close {α : Type} (next : Except Thrown Unit → Body α) : Body α

structure Query where
  sql : String
  parameters : Option (List Value)
  answer : Except Thrown Outcome

def Query.control (sql : String) (answer : Except Thrown Outcome) : Query :=
  { sql, parameters := none, answer }

/-- The error of closing the client of a transaction. -/
def notClosable : Thrown := .failure (.plain "Cannot end the pool inside a transaction")

namespace Body

def perform (link : Link σ) : {α : Type} → Body α → Client → Action σ α
  | _, done a, _ => return a
  | _, raise e, _ => throw e
  | _, query sql parameters next, client => do
    let r ← (client.query link sql parameters).outcome
    (next r).perform link client
  | _, transaction inner next, client => do
    let r ← (client.transaction link (inner.perform link)).outcome
    (next r).perform link client
  | _, close next, client => do
    let r ← (client.close link).outcome
    (next r).perform link client

/-- The queries of a body in the order of its calls, sent by the given function, and what the body
ends with. A transaction within it adds nothing but the queries of its own body. -/
inductive Sends (send : String → Option (List Value) → Action σ Outcome) :
    {α : Type} → Body α → σ → List Query → Except Thrown α → σ → Prop
  | done {α : Type} {a : α} {w : σ} : Sends send (done a) w [] (.ok a) w
  | raise {α : Type} {e : Thrown} {w : σ} :
      Sends send (raise e : Body α) w [] (.error e) w
  | query {α : Type} {sql : String} {parameters : Option (List Value)}
      {next : Except Thrown Outcome → Body α} {answer : Except Thrown Outcome}
      {queries : List Query} {r : Except Thrown α} {w w₁ w₂ : σ}
      (head : send sql parameters w = (answer, w₁))
      (tail : Sends send (next answer) w₁ queries r w₂) :
      Sends send (query sql parameters next) w ({ sql, parameters, answer } :: queries) r w₂
  | transaction {α β : Type} {inner : Body β} {next : Except Thrown β → Body α}
      {queries queries' : List Query} {answer : Except Thrown β} {r : Except Thrown α}
      {w w₁ w₂ : σ} (head : Sends send inner w queries answer w₁)
      (tail : Sends send (next answer) w₁ queries' r w₂) :
      Sends send (transaction inner next) w (queries ++ queries') r w₂
  | close {α : Type} {next : Except Thrown Unit → Body α} {queries : List Query}
      {r : Except Thrown α} {w w₁ : σ}
      (tail : Sends send (next (.error notClosable)) w queries r w₁) :
      Sends send (close next) w queries r w₁

/-- A body comes to its end. -/
theorem exists_sends (send : String → Option (List Value) → Action σ Outcome) {α : Type}
    (body : Body α) (w : σ) : ∃ queries r w', Sends send body w queries r w' := by
  induction body generalizing w with
  | done a => exact ⟨[], .ok a, w, .done⟩
  | raise e => exact ⟨[], .error e, w, .raise⟩
  | query sql parameters next ih =>
    obtain ⟨queries, r, w', h⟩ := ih (send sql parameters w).1 (send sql parameters w).2
    exact ⟨_, r, w', .query rfl h⟩
  | transaction inner next ihInner ih =>
    obtain ⟨queries, answer, w₁, h⟩ := ihInner w
    obtain ⟨queries', r, w', h'⟩ := ih answer w₁
    exact ⟨queries ++ queries', r, w', .transaction h h'⟩
  | close next ih =>
    obtain ⟨queries, r, w', h⟩ := ih (.error notClosable) w
    exact ⟨queries, r, w', .close h⟩

theorem Sends.perform {link : Link σ} {body : Body α} {queries : List Query}
    {r : Except Thrown α} {w w' : σ} (h : Sends (link.send .connection) body w queries r w') :
    body.perform link .inTransaction w = (r, w') := by
  induction h with
  | done => rfl
  | raise => rfl
  | query head tail ih =>
    refine (Action.bind_ok (Action.outcome_run _ _)).trans ?_
    simp only [Client.query, head]
    exact ih
  | transaction head tail ihHead ih =>
    refine (Action.bind_ok (Action.outcome_run _ _)).trans ?_
    simp only [Client.transaction, ihHead]
    exact ih
  | close tail ih => exact ih

end Body

/-! ### The calls of a link -/

inductive Event
  | connect (answer : Except Thrown Unit)
  | sent (target : Target) (query : Query)
  | release (answer : Except Thrown Unit)
  | close (answer : Except Thrown Unit)

def Event.onConnection (query : Query) : Event := .sent .connection query

def noted (event : Except Thrown α → Event) (a : Action σ α) : Action (List Event × σ) α :=
  fun (events, w) => ((a w).1, (events ++ [event (a w).1], (a w).2))

def Link.noting (link : Link σ) : Link (List Event × σ) where
  connect := noted .connect link.connect
  send target sql parameters :=
    noted (fun answer => .sent target { sql, parameters, answer }) (link.send target sql parameters)
  release := noted .release link.release
  close := noted .close link.close

theorem send_noting {link : Link σ} {sql : String} {parameters : Option (List Value)}
    {answer : Except Thrown Outcome} {w w' : σ}
    (h : link.send .connection sql parameters w = (answer, w')) (events : List Event) :
    link.noting.send .connection sql parameters (events, w) =
      (answer, (events ++ [.onConnection { sql, parameters, answer }], w')) := by
  simp only [Link.noting, noted, h]
  rfl

theorem send_noting_append {link : Link σ} {sql : String} {parameters : Option (List Value)}
    {answer : Except Thrown Outcome} {w w' : σ}
    (h : link.send .connection sql parameters w = (answer, w')) (events : List Event)
    (queries : List Query) :
    link.noting.send .connection sql parameters (events ++ queries.map .onConnection, w) =
      (answer, (events ++
        (queries ++ [⟨sql, parameters, answer⟩] : List Query).map .onConnection, w')) := by
  rw [send_noting h, List.append_assoc, List.map_append]
  rfl

theorem connect_noting {link : Link σ} {answer : Except Thrown Unit} {w w' : σ}
    (h : link.connect w = (answer, w')) (events : List Event) :
    link.noting.connect (events, w) = (answer, (events ++ [.connect answer], w')) := by
  simp only [Link.noting, noted, h]

theorem release_noting {link : Link σ} {answer : Except Thrown Unit} {w w' : σ}
    (h : link.release w = (answer, w')) (events : List Event) :
    link.noting.release (events, w) = (answer, (events ++ [.release answer], w')) := by
  simp only [Link.noting, noted, h]

theorem Body.Sends.noting {link : Link σ} {body : Body α} {queries : List Query}
    {r : Except Thrown α} {w w' : σ} (h : Sends (link.send .connection) body w queries r w')
    (events : List Event) :
    Sends (link.noting.send .connection) body (events, w) queries r
      (events ++ queries.map .onConnection, w') := by
  induction h generalizing events with
  | done =>
    rw [List.map_nil, List.append_nil]
    exact .done
  | raise =>
    rw [List.map_nil, List.append_nil]
    exact .raise
  | query head tail ih =>
    rename_i sql parameters next answer queries r w w₁ w₂
    have ht := ih (events ++ [.onConnection { sql, parameters, answer }])
    rw [List.append_assoc] at ht
    exact .query (send_noting head events) ht
  | transaction head tail ihHead ih =>
    rw [List.map_append, ← List.append_assoc]
    exact .transaction (ihHead events) (ih _)
  | close tail ih => exact .close (ih events)

/-! ### The statements of a transaction -/

/-- The statements from BEGIN on, up to the first that is rejected or to COMMIT, and what they and
the body between them end with. -/
inductive Proceeds (link : Link σ) (body : Body α) (w : σ) :
    List Query → Except Thrown α → σ → Prop
  | unbegun {e : Thrown} {w₁ : σ} (begun : link.send .connection "BEGIN" none w = (.error e, w₁)) :
      Proceeds link body w [.control "BEGIN" (.error e)] (.error e) w₁
  | failed {o : Outcome} {queries : List Query} {e : Thrown} {w₁ w₂ : σ}
      (begun : link.send .connection "BEGIN" none w = (.ok o, w₁))
      (sends : body.Sends (link.send .connection) w₁ queries (.error e) w₂) :
      Proceeds link body w (.control "BEGIN" (.ok o) :: queries) (.error e) w₂
  | uncommitted {o : Outcome} {queries : List Query} {a : α} {e : Thrown} {w₁ w₂ w₃ : σ}
      (begun : link.send .connection "BEGIN" none w = (.ok o, w₁))
      (sends : body.Sends (link.send .connection) w₁ queries (.ok a) w₂)
      (ended : link.send .connection "COMMIT" none w₂ = (.error e, w₃)) :
      Proceeds link body w (.control "BEGIN" (.ok o) :: (queries ++ [.control "COMMIT" (.error e)]))
        (.error e) w₃
  | committed {o o' : Outcome} {queries : List Query} {a : α} {w₁ w₂ w₃ : σ}
      (begun : link.send .connection "BEGIN" none w = (.ok o, w₁))
      (sends : body.Sends (link.send .connection) w₁ queries (.ok a) w₂)
      (ended : link.send .connection "COMMIT" none w₂ = (.ok o', w₃)) :
      Proceeds link body w (.control "BEGIN" (.ok o) :: (queries ++ [.control "COMMIT" (.ok o')]))
        (.ok a) w₃

/-- The calls of a transaction and what it ends with. ROLLBACK is the last statement where one
before it was rejected or the body failed; its own error stands in for theirs. -/
inductive Brackets (link : Link σ) (body : Body α) (w : σ) :
    List Event → Except Thrown α → σ → Prop
  | unconnected {e : Thrown} {w₁ : σ} (connected : link.connect w = (.error e, w₁)) :
      Brackets link body w [.connect (.error e)] (.error e) w₁
  | committed {queries : List Query} {a : α} {released : Except Thrown Unit} {w₁ w₂ w₃ : σ}
      (connected : link.connect w = (.ok (), w₁))
      (proceeds : Proceeds link body w₁ queries (.ok a) w₂)
      (given : link.release w₂ = (released, w₃)) :
      Brackets link body w
        (.connect (.ok ()) :: (queries.map .onConnection ++ [.release released]))
        (released.bind fun _ => .ok a) w₃
  | rolledBack {queries : List Query} {e : Thrown} {answer : Except Thrown Outcome}
      {released : Except Thrown Unit} {w₁ w₂ w₃ w₄ : σ}
      (connected : link.connect w = (.ok (), w₁))
      (proceeds : Proceeds link body w₁ queries (.error e) w₂)
      (undone : link.send .connection "ROLLBACK" none w₂ = (answer, w₃))
      (given : link.release w₃ = (released, w₄)) :
      Brackets link body w
        (.connect (.ok ()) ::
          ((queries ++ [Query.control "ROLLBACK" answer]).map .onConnection ++ [.release released]))
        (released.bind fun _ => answer.bind fun _ => .error e) w₄

theorem exists_proceeds (link : Link σ) (body : Body α) (w : σ) :
    ∃ queries r w', Proceeds link body w queries r w' := by
  rcases Action.run_cases (link.send .connection "BEGIN" none) w with
    ⟨o, w₁, hb⟩ | ⟨e, w₁, hb⟩
  · obtain ⟨queries, r, w₂, hs⟩ := body.exists_sends (link.send .connection) w₁
    cases r with
    | error e => exact ⟨_, _, _, .failed hb hs⟩
    | ok a =>
      rcases Action.run_cases (link.send .connection "COMMIT" none) w₂ with
        ⟨o', w₃, hc⟩ | ⟨e, w₃, hc⟩
      · exact ⟨_, _, _, .committed hb hs hc⟩
      · exact ⟨_, _, _, .uncommitted hb hs hc⟩
  · exact ⟨_, _, _, .unbegun hb⟩

theorem exists_brackets (link : Link σ) (body : Body α) (w : σ) :
    ∃ events r w', Brackets link body w events r w' := by
  rcases Action.run_cases link.connect w with ⟨⟨⟩, w₁, hc⟩ | ⟨e, w₁, hc⟩
  · obtain ⟨queries, r, w₂, hp⟩ := exists_proceeds link body w₁
    cases r with
    | ok a => exact ⟨_, _, _, .committed hc hp rfl⟩
    | error e => exact ⟨_, _, _, .rolledBack hc hp rfl rfl⟩
  · exact ⟨_, _, _, .unconnected hc⟩

/-! ### The run of a transaction -/

section run

variable {link : Link σ} {body : Body α} {w w' : σ} {queries : List Query} {e : Thrown} {a : α}
  {r : Except Thrown α}

theorem control_run {sql : String} {answer : Except Thrown Outcome}
    (h : link.send .connection sql none w = (answer, w')) :
    Client.control link sql w = (answer.map fun _ => (), w') := by
  cases answer with
  | ok o => exact Action.bind_ok h
  | error e => exact Action.bind_error h

theorem Proceeds.run (h : Proceeds link body w queries r w') :
    (do
      Client.control link "BEGIN"
      let a ← body.perform link .inTransaction
      Client.control link "COMMIT"
      return a : Action σ α) w = (r, w') := by
  cases h with
  | unbegun begun => exact Action.bind_error (control_run begun)
  | failed begun sends =>
    exact (Action.bind_ok (control_run begun)).trans (Action.bind_error sends.perform)
  | uncommitted begun sends ended =>
    exact (Action.bind_ok (control_run begun)).trans
      ((Action.bind_ok sends.perform).trans (Action.bind_error (control_run ended)))
  | committed begun sends ended =>
    exact (Action.bind_ok (control_run begun)).trans
      ((Action.bind_ok sends.perform).trans (Action.bind_ok (control_run ended)))

theorem Proceeds.inBrackets_ok (h : Proceeds link body w queries (.ok a) w') :
    Client.inBrackets link (body.perform link) w = (.ok a, w') :=
  Action.tryCatch_ok h.run

theorem Proceeds.inBrackets_error {w₁ : σ} {answer : Except Thrown Outcome}
    (h : Proceeds link body w queries (.error e) w₁)
    (undone : link.send .connection "ROLLBACK" none w₁ = (answer, w')) :
    Client.inBrackets link (body.perform link) w = (answer.bind fun _ => .error e, w') := by
  refine (Action.tryCatch_error h.run).trans ?_
  cases answer with
  | ok o => exact Action.bind_ok (control_run undone)
  | error e' => exact Action.bind_error (control_run undone)

/-- The connection is given back, whatever the statements end with. -/
theorem transaction_of_connected {body : Client → Action σ α} {released : Except Thrown Unit}
    {w₁ w₂ : σ} (connected : link.connect w = (.ok (), w₁))
    (inside : Client.inBrackets link body w₁ = (r, w₂)) (given : link.release w₂ = (released, w')) :
    Client.transaction link .whole body w = (released.bind fun _ => r, w') := by
  have ho : (Client.inBrackets link body).outcome w₁ = (.ok r, w₂) := by
    rw [Action.outcome_run, inside]
  refine (Action.bind_ok connected).trans ((Action.bind_ok ho).trans ?_)
  cases released with
  | ok u =>
    refine (Action.bind_ok given).trans ?_
    cases r <;> rfl
  | error e' => exact Action.bind_error given

theorem Brackets.run {events : List Event} (h : Brackets link body w events r w') :
    Client.transaction link .whole (body.perform link) w = (r, w') := by
  cases h with
  | unconnected connected => exact Action.bind_error connected
  | committed connected proceeds given =>
    exact transaction_of_connected connected proceeds.inBrackets_ok given
  | rolledBack connected proceeds undone given =>
    exact transaction_of_connected connected (proceeds.inBrackets_error undone) given

theorem begun_noting {o : Outcome} {w₁ : σ}
    (begun : link.send .connection "BEGIN" none w = (.ok o, w₁))
    (sends : body.Sends (link.send .connection) w₁ queries r w') (events : List Event) :
    link.noting.send .connection "BEGIN" none (events, w) =
        (.ok o, (events ++ [.onConnection (.control "BEGIN" (.ok o))], w₁)) ∧
      body.Sends (link.noting.send .connection)
        (events ++ [.onConnection (.control "BEGIN" (.ok o))], w₁) queries r
        (events ++ (Query.control "BEGIN" (.ok o) :: queries).map .onConnection, w') := by
  have hs := sends.noting (events ++ [.onConnection (.control "BEGIN" (.ok o))])
  rw [List.append_assoc] at hs
  exact ⟨send_noting begun events, hs⟩

theorem Proceeds.noting (h : Proceeds link body w queries r w') (events : List Event) :
    Proceeds link.noting body (events, w) queries r (events ++ queries.map .onConnection, w') := by
  cases h with
  | unbegun begun => exact .unbegun (send_noting begun events)
  | failed begun sends =>
    obtain ⟨hb, hs⟩ := begun_noting begun sends events
    exact .failed hb hs
  | uncommitted begun sends ended =>
    obtain ⟨hb, hs⟩ := begun_noting begun sends events
    exact .uncommitted hb hs (send_noting_append ended events _)
  | committed begun sends ended =>
    obtain ⟨hb, hs⟩ := begun_noting begun sends events
    exact .committed hb hs (send_noting_append ended events _)

theorem Brackets.noting {events : List Event} (h : Brackets link body w events r w') :
    Brackets link.noting body ([], w) events r (events, w') := by
  cases h with
  | unconnected connected => exact .unconnected (connect_noting connected [])
  | committed connected proceeds given =>
    exact .committed (connect_noting connected []) (proceeds.noting _) (release_noting given _)
  | rolledBack connected proceeds undone given =>
    exact .rolledBack (connect_noting connected []) (proceeds.noting _)
      (send_noting_append undone [.connect (.ok ())] _) (release_noting given _)

/-- A transaction answers just where the connection is there, BEGIN, the body and COMMIT all
answer and the connection can be given back. Its answer is that of the body. -/
theorem Brackets.ok_iff {events : List Event} (h : Brackets link body w events r w') (a : α) :
    r = .ok a ↔ ∃ o o' queries w₁ w₂ w₃ w₄,
      link.connect w = (.ok (), w₁) ∧ link.send .connection "BEGIN" none w₁ = (.ok o, w₂) ∧
      body.Sends (link.send .connection) w₂ queries (.ok a) w₃ ∧
      ∃ w₅, link.send .connection "COMMIT" none w₃ = (.ok o', w₄) ∧
        link.release w₄ = (.ok (), w₅) := by
  constructor
  · rintro rfl
    generalize hr : (Except.ok a : Except Thrown α) = r at h
    cases h with
    | unconnected connected => cases hr
    | committed connected proceeds given =>
      rename_i released _ _
      cases released with
      | error e => cases hr
      | ok u =>
        cases hr
        cases proceeds with
        | committed begun sends ended =>
          exact ⟨_, _, _, _, _, _, _, connected, begun, sends, _, ended, given⟩
    | rolledBack connected proceeds undone given =>
      rename_i answer released _ _ _
      cases released <;> cases answer <;> cases hr
  · rintro ⟨o, o', queries, w₁, w₂, w₃, w₄, connected, begun, sends, w₅, ended, given⟩
    have hb : Brackets link body w _ (.ok a) w₅ :=
      .committed connected (.committed begun sends ended) given
    exact congrArg Prod.fst (h.run.symm.trans hb.run)

end run

/-- The calls that a transaction makes, and what it ends with. Where there is no connection nothing
is sent and nothing is given back. Otherwise every statement goes to the connection that was taken,
the queries of the body in the order of its calls between BEGIN and what ends the transaction, and
the connection is given back once, after all of them. -/
theorem transaction_brackets (link : Link σ) (body : Body α) (w : σ) :
    ∃ events r w',
      Client.transaction link .whole (body.perform link) w = (r, w') ∧
      Client.transaction link.noting .whole (body.perform link.noting) ([], w) =
        (r, (events, w')) ∧
      Brackets link body w events r w' ∧
      ((∃ e, events = [.connect (.error e)]) ∨
        ∃ (statements : List Query) (released : Except Thrown Unit),
          events = .connect (.ok ()) :: (statements.map .onConnection ++ [.release released])) ∧
      ∀ a, r = .ok a ↔ ∃ o o' queries w₁ w₂ w₃ w₄,
        link.connect w = (.ok (), w₁) ∧ link.send .connection "BEGIN" none w₁ = (.ok o, w₂) ∧
        body.Sends (link.send .connection) w₂ queries (.ok a) w₃ ∧
        ∃ w₅, link.send .connection "COMMIT" none w₃ = (.ok o', w₄) ∧
          link.release w₄ = (.ok (), w₅) := by
  obtain ⟨events, r, w', h⟩ := exists_brackets link body w
  refine ⟨events, r, w', h.run, h.noting.run, h, ?_, h.ok_iff⟩
  cases h with
  | unconnected connected => exact .inl ⟨_, rfl⟩
  | committed connected proceeds given => exact .inr ⟨_, _, rfl⟩
  | rolledBack connected proceeds undone given => exact .inr ⟨_, _, rfl⟩

end Database

end Seedbed
