import Seedbed.Proofs.Database.Rollback
import Seedbed.Proofs.Database.Rows

/-! Files that are populated in a transaction. COMMIT is sent just if the file could be loaded and
each of its records was inserted, so the rows of a file are all there or none of them is. The
registry is not part of the transaction: the labels of records that were inserted before one that
could not be stay. -/

namespace Seedbed

/-- A delimited statement can be told from those of a transaction by how it begins. -/
theorem Insert.sql_begins (i : Insert) : ∃ cs, i.sql.toList = 'I' :: cs := by
  unfold Insert.sql
  simp only [String.append_assoc]
  split <;> exact ⟨_, String.toList_append⟩

namespace Database

variable {S σ α : Type}

def Link.beside (link : Link σ) : Link (S × σ) where
  connect := link.connect.beside
  send target sql parameters := (link.send target sql parameters).beside
  release := link.release.beside
  close := link.close.beside

/-- Populates a file by rows, in a transaction. -/
def populateWithin (link : Link σ) (source : Source σ) (filename : String) (decoder : Decoder σ)
    (mapping : RowMapping σ) : Action (Seeder × σ) (List Identifier) :=
  Client.transaction link.beside .whole fun client =>
    Seeder.populateAsync source filename decoder (mapping.inserter (rowsOf (client.query link)))

/-! ### The end of a transaction -/

/-- The statements after the body, which ended with the first result, and what the transaction ends
with. -/
inductive Concludes (link : Link σ) (w : σ) :
    Except Thrown α → List Query → Except Thrown α → σ → Prop
  | failed {e : Thrown} {undone : Except Thrown Outcome} {w₁ : σ}
      (rollback : link.send .connection "ROLLBACK" none w = (undone, w₁)) :
      Concludes link w (.error e) [.control "ROLLBACK" undone] (undone.bind fun _ => .error e) w₁
  | uncommitted {a : α} {e : Thrown} {undone : Except Thrown Outcome} {w₁ w₂ : σ}
      (commit : link.send .connection "COMMIT" none w = (.error e, w₁))
      (rollback : link.send .connection "ROLLBACK" none w₁ = (undone, w₂)) :
      Concludes link w (.ok a) [.control "COMMIT" (.error e), .control "ROLLBACK" undone]
        (undone.bind fun _ => .error e) w₂
  | committed {a : α} {o : Outcome} {w₁ : σ}
      (commit : link.send .connection "COMMIT" none w = (.ok o, w₁)) :
      Concludes link w (.ok a) [.control "COMMIT" (.ok o)] (.ok a) w₁

theorem exists_concludes (link : Link σ) (w : σ) (r : Except Thrown α) :
    ∃ closing r' w', Concludes link w r closing r' w' := by
  cases r with
  | error e => exact ⟨_, _, _, .failed rfl⟩
  | ok a =>
    rcases Action.run_cases (link.send .connection "COMMIT" none) w with
      ⟨o, w₁, hc⟩ | ⟨e, w₁, hc⟩
    · exact ⟨_, _, _, .committed hc⟩
    · exact ⟨_, _, _, .uncommitted hc rfl⟩

section concludes

variable {link : Link σ} {w w₁ w₂ w' : σ} {r r' : Except Thrown α} {closing : List Query}

theorem Concludes.beside (h : Concludes link w r closing r' w') (s : S) :
    Concludes link.beside (s, w) r closing r' (s, w') := by
  cases h with
  | failed rollback => exact .failed (Action.beside_of_run rollback s)
  | uncommitted commit rollback =>
    exact .uncommitted (Action.beside_of_run commit s) (Action.beside_of_run rollback s)
  | committed commit => exact .committed (Action.beside_of_run commit s)

theorem Concludes.noting (h : Concludes link w r closing r' w') (events : List Event) :
    Concludes link.noting (events, w) r closing r' (events ++ closing.map .onConnection, w') := by
  cases h with
  | failed rollback => exact .failed (send_noting rollback events)
  | uncommitted commit rollback =>
    exact .uncommitted (send_noting commit events)
      (send_noting_append rollback events [.control "COMMIT" (.error _)])
  | committed commit => exact .committed (send_noting commit events)

theorem Concludes.inBrackets {body : Client → Action σ α} {o : Outcome}
    (h : Concludes link w₂ r closing r' w')
    (begun : link.send .connection "BEGIN" none w = (.ok o, w₁))
    (hbody : body .inTransaction w₁ = (r, w₂)) :
    Client.inBrackets link body w = (r', w') := by
  cases h with
  | failed rollback => exact (Rejected.failed begun hbody).inBrackets rollback
  | uncommitted commit rollback =>
    exact (Rejected.uncommitted begun hbody commit).inBrackets rollback
  | committed commit =>
    exact Action.tryCatch_ok ((Action.bind_ok (control_run begun)).trans
      ((Action.bind_ok hbody).trans (Action.bind_ok (control_run commit))))

end concludes

/-! ### The queries of a file -/

section queries

variable {send : Sender σ} {mapping : RowMapping σ} {entries done : List (String × Value)}
  {entry : String × Value} {queries : List Query} {ids : List Identifier} {e : Thrown} {w w' : σ}

theorem inserting_sql_ne (q : Seedbed.Query) (answer : Except Thrown Outcome) :
    (Query.inserting q answer).sql ≠ "COMMIT" := by
  intro h
  obtain ⟨cs, hcs⟩ := q.statement.sql_begins
  have hc : q.statement.sql.toList = "COMMIT".toList := congrArg String.toList h
  cases hcs.symm.trans hc

theorem Attempt.not_commit {record : Value} {r : Except Thrown Identifier}
    (h : Attempt send mapping record w queries r w') : ∀ q ∈ queries, q.sql ≠ "COMMIT" := by
  cases h with
  | unmade => exact List.forall_mem_nil _
  | unbuilt => exact List.forall_mem_nil _
  | rejected => exact List.forall_mem_singleton.2 (inserting_sql_ne _ _)
  | unnamed => exact List.forall_mem_singleton.2 (inserting_sql_ne _ _)
  | inserted => exact List.forall_mem_singleton.2 (inserting_sql_ne _ _)

theorem Inserted.not_commit (h : Inserted send mapping entries w queries ids w') :
    ∀ q ∈ queries, q.sql ≠ "COMMIT" := by
  induction h with
  | nil => exact List.forall_mem_nil _
  | cons head tail ih =>
    exact List.forall_mem_cons.2 ⟨head.not_commit _ List.mem_cons_self, ih⟩

theorem Stops.not_commit (h : Stops send mapping entries w done entry queries ids e w') :
    ∀ q ∈ queries, q.sql ≠ "COMMIT" := by
  cases h with
  | intro split inserted failed =>
    exact List.forall_mem_append.2 ⟨inserted.not_commit, failed.not_commit⟩

end queries

section written

variable {send : Sender σ} {source : Source σ} {filename : String} {decoder : Decoder σ}
  {mapping : RowMapping σ} {s s₁ s₂ : Seeder} {queries queries' : List Query}
  {r r' : Except Thrown (List Identifier)} {w w₁ w₂ : σ}

theorem Written.not_commit (h : Written send source filename decoder mapping s w queries r s₁ w₁) :
    ∀ q ∈ queries, q.sql ≠ "COMMIT" := by
  cases h with
  | unloaded load => exact List.forall_mem_nil _
  | stopped load stops => exact stops.not_commit
  | finished load inserted => exact inserted.not_commit

/-- A call ends in one way: its queries can be read off the call watched. -/
theorem Written.unique (h : Written send source filename decoder mapping s w queries r s₁ w₁)
    (h' : Written send source filename decoder mapping s w queries' r' s₂ w₂) :
    queries = queries' ∧ r = r' ∧ s₁ = s₂ ∧ w₁ = w₂ := by
  have hrun := (h.noting id []).run.symm.trans (h'.noting id []).run
  rw [List.map_id, List.map_id, List.nil_append, List.nil_append, Prod.mk.injEq, Prod.mk.injEq,
    Prod.mk.injEq] at hrun
  obtain ⟨hr, hs, hq, hw⟩ := hrun
  exact ⟨hq, hr, hs, hw⟩

end written

/-! ### A file in a transaction -/

/-- The file is not populated, for the given error, and the transaction is rolled back after the
given queries. Where ROLLBACK answers, the error is the one that is thrown. -/
structure RolledBack (link : Link σ) (source : Source σ) (filename : String) (decoder : Decoder σ)
    (mapping : RowMapping σ) (s : Seeder) (w : σ) (o : Outcome) (e : Thrown)
    (queries statements : List Query) (r : Except Thrown (List Identifier)) (s' : Seeder) :
    Prop where
  threw : ∃ w', Seeder.populateAsync source filename decoder
    (mapping.inserter (rowsOf (link.send .connection))) (s, w) = (.error e, (s', w'))
  sent : ∃ undone, r = (undone.bind fun _ => .error e) ∧
    statements = .control "BEGIN" (.ok o) :: (queries ++ [.control "ROLLBACK" undone])
  uncommitted : ∀ q ∈ statements, q.sql ≠ "COMMIT"

/-- What a transaction sends that populates a file, from BEGIN on, which answered with `o` and left
`w`, and what it ends with. -/
structure LandsWhole (link : Link σ) (source : Source σ) (filename : String) (decoder : Decoder σ)
    (mapping : RowMapping σ) (s : Seeder) (w : σ) (o : Outcome) (statements : List Query)
    (r : Except Thrown (List Identifier)) (s' : Seeder) : Prop where
  /-- COMMIT is sent just if the file is loaded and all of its records are inserted. -/
  commits : (∃ q ∈ statements, q.sql = "COMMIT") ↔ ∃ records w₁ queries ids w₂,
    LoadYields source filename decoder (some s.baseDir) s.names w records w₁ ∧
      Inserted (link.send .connection) mapping records.entries w₁ queries ids w₂
  landed : ∀ records w₁ queries ids w₂,
    LoadYields source filename decoder (some s.baseDir) s.names w records w₁ →
    Inserted (link.send .connection) mapping records.entries w₁ queries ids w₂ →
      (∃ o', r = .ok ids ∧ statements = .control "BEGIN" (.ok o) ::
        (queries ++ [.control "COMMIT" (.ok o')])) ∨
      ∃ e undone, r = (undone.bind fun _ => .error e) ∧ statements = .control "BEGIN" (.ok o) ::
        (queries ++ [.control "COMMIT" (.error e), .control "ROLLBACK" undone])
  unloaded : ∀ w₁, LoadFails source filename decoder (some s.baseDir) s.names w w₁ →
    ∃ e, RolledBack link source filename decoder mapping s w o e [] statements r s'
  /-- The insert of a record fails, and those before it stay in the registry. -/
  stopped : ∀ records w₁ done label record queries ids e w₂,
    LoadYields source filename decoder (some s.baseDir) s.names w records w₁ →
    Stops (link.send .connection) mapping records.entries w₁ done (label, record) queries ids e
      w₂ →
    (∃ f, RolledBack link source filename decoder mapping s w o (.fault f) queries statements r s' ∧
      f.code = .insertFailed ∧
      f.context = { filename := some filename, label := some label } ∧
      f.cause.getD (.value .absent) = e) ∧
    ∀ p ∈ (done.map Prod.fst).zip ids, s'.lookup p.1 = some p.2.toText
  total : (∃ w₁, LoadFails source filename decoder (some s.baseDir) s.names w w₁) ∨
    ∃ records w₁, LoadYields source filename decoder (some s.baseDir) s.names w records w₁ ∧
      ((∃ queries ids w₂,
        Inserted (link.send .connection) mapping records.entries w₁ queries ids w₂) ∨
      ∃ done label record queries ids e w₂, Stops (link.send .connection) mapping records.entries
        w₁ done (label, record) queries ids e w₂)

section within

variable {link : Link σ} {source : Source σ} {filename : String} {decoder : Decoder σ}
  {mapping : RowMapping σ} {s s' : Seeder} {queries closing : List Query} {o : Outcome}
  {e : Thrown} {r r' : Except Thrown (List Identifier)} {w w₁ w₂ w₃ w₄ w' : σ}

/-- A connection is there and BEGIN answers, and the rows and the end of the transaction follow. -/
theorem Written.within {released : Except Thrown Unit}
    (h : Written (link.send .connection) source filename decoder mapping s w₂ queries r s' w₃)
    (connected : link.connect w = (.ok (), w₁))
    (begun : link.send .connection "BEGIN" none w₁ = (.ok o, w₂))
    (hc : Concludes link w₃ r closing r' w₄) (given : link.release w₄ = (released, w')) :
    populateWithin link source filename decoder mapping (s, w) =
      (released.bind fun _ => r', (s', w')) := by
  have hbegun : link.beside.send .connection "BEGIN" none (s, w₁) = (.ok o, (s, w₂)) :=
    Action.beside_of_run begun s
  exact transaction_of_connected (Action.beside_of_run connected s)
    ((hc.beside s').inBrackets hbegun h.run) (Action.beside_of_run given s')

theorem Written.rolledBack
    (h : Written (link.send .connection) source filename decoder mapping s w queries (.error e) s'
      w₁) (o : Outcome) (hc : Concludes link w₁ (.error e) closing r w') :
    RolledBack link source filename decoder mapping s w o e queries
      (.control "BEGIN" (.ok o) :: (queries ++ closing)) r s' := by
  cases hc with
  | failed rollback =>
    refine ⟨⟨w₁, h.run⟩, ⟨_, rfl, rfl⟩, List.forall_mem_cons.2 ⟨?_, ?_⟩⟩
    · exact (by decide : "BEGIN" ≠ "COMMIT")
    · exact List.forall_mem_append.2 ⟨h.not_commit,
        List.forall_mem_singleton.2 (by decide : "ROLLBACK" ≠ "COMMIT")⟩

/-- COMMIT is sent where the rows are written. -/
theorem Written.commit_iff
    (h : Written (link.send .connection) source filename decoder mapping s w queries r s' w₁)
    (o : Outcome) (hc : Concludes link w₁ r closing r' w') :
    (∃ q ∈ (.control "BEGIN" (.ok o) :: (queries ++ closing) : List Query), q.sql = "COMMIT") ↔
      ∃ ids, r = .ok ids := by
  cases r with
  | error e =>
    refine ⟨?_, nofun⟩
    rintro ⟨q, hq, hcommit⟩
    exact absurd hcommit ((h.rolledBack o hc).uncommitted q hq)
  | ok ids =>
    refine ⟨fun _ => ⟨ids, rfl⟩, fun _ => ?_⟩
    cases hc with
    | uncommitted commit rollback =>
      exact ⟨_, List.mem_cons_of_mem _ (List.mem_append_right _ List.mem_cons_self), rfl⟩
    | committed commit =>
      exact ⟨_, List.mem_cons_of_mem _ (List.mem_append_right _ List.mem_cons_self), rfl⟩

theorem Written.landsWhole
    (h : Written (link.send .connection) source filename decoder mapping s w queries r s' w₁)
    (o : Outcome) (hc : Concludes link w₁ r closing r' w') :
    LandsWhole link source filename decoder mapping s w o
      (.control "BEGIN" (.ok o) :: (queries ++ closing)) r' s' where
  commits := by
    rw [h.commit_iff o hc]
    constructor
    · rintro ⟨ids, rfl⟩
      cases h with
      | finished load inserted => exact ⟨_, _, _, _, _, .of_run load, inserted⟩
    · rintro ⟨records, w₁, queries, ids, w₂, hy, hi⟩
      exact ⟨ids, (h.unique (.finished hy.run hi)).2.1⟩
  landed := by
    intro records w₁ queries ids w₂ hy hi
    obtain ⟨rfl, rfl, rfl, rfl⟩ := h.unique (.finished hy.run hi)
    cases hc with
    | uncommitted commit rollback => exact .inr ⟨_, _, rfl, rfl⟩
    | committed commit => exact .inl ⟨_, rfl, rfl⟩
  unloaded := by
    intro w₁ hf
    obtain ⟨e, he⟩ := hf.run
    obtain ⟨rfl, rfl, rfl, rfl⟩ := h.unique (.unloaded he)
    exact ⟨e, h.rolledBack o hc⟩
  stopped := by
    intro records w₁ done label record queries ids e w₂ hy hstops
    obtain ⟨rfl, rfl, rfl, rfl⟩ := h.unique (.stopped hy.run hstops)
    refine ⟨⟨_, h.rolledBack o hc, Fault.withCause_code _ _, Fault.withCause_context _ _,
      Fault.withCause_cause rfl e⟩, ?_⟩
    cases hstops with
    | intro hsplit inserted failed =>
      exact lookup_of_inserted hsplit inserted.length.2
        (Seeder.registerAll_kept filename (s.loaded filename) ((done.map Prod.fst).zip ids)).1
  total := by
    rcases loadFails_or_yields source filename decoder (some s.baseDir) s.names w with
      hf | ⟨records, w₁, hy⟩
    · exact .inl hf
    · refine .inr ⟨records, w₁, hy, ?_⟩
      rcases inserted_or_stops (link.send .connection) mapping records.entries w₁ with
        hi | ⟨done, entry, queries, ids, e, w₂, hs⟩
      · exact .inl hi
      · exact .inr ⟨done, entry.1, entry.2, queries, ids, e, w₂, hs⟩

end within

/-- A file that is populated in a transaction lands as a whole or not at all. Its queries stand
between BEGIN and what ends the transaction, all on the connection that was taken, and the
connection is given back. -/
theorem file_lands_whole {link : Link σ} (source : Source σ) (filename : String)
    (decoder : Decoder σ) (mapping : RowMapping σ) (s : Seeder) {w w₁ w₂ : σ} {o : Outcome}
    (connected : link.connect w = (.ok (), w₁))
    (begun : link.send .connection "BEGIN" none w₁ = (.ok o, w₂)) :
    ∃ statements released r s' w',
      populateWithin link source filename decoder mapping (s, w) =
        (released.bind fun _ => r, (s', w')) ∧
      populateWithin link.noting source.beside filename decoder.beside mapping.beside
          (s, ([], w)) =
        (released.bind fun _ => r,
          (s', (.connect (.ok ()) :: (statements.map .onConnection ++ [.release released]), w'))) ∧
      LandsWhole link source filename decoder mapping s w₂ o statements r s' := by
  obtain ⟨queries, r, s', w₃, h⟩ :=
    exists_written (link.send .connection) source filename decoder mapping s w₂
  obtain ⟨closing, r', w₄, hc⟩ := exists_concludes link w₃ r
  obtain ⟨released, w', given⟩ : ∃ released w', link.release w₄ = (released, w') := ⟨_, _, rfl⟩
  refine ⟨_, released, r', s', w', h.within connected begun hc given, ?_, h.landsWhole o hc⟩
  -- what was written down before the file is read: the connection and BEGIN
  have hn := h.noting Event.onConnection
    [.connect (.ok ()), .onConnection (.control "BEGIN" (.ok o))]
  have hrun := hn.within (connect_noting connected []) (send_noting begun _) (hc.noting _)
    (release_noting given _)
  simpa using hrun

/-- No statement is rejected, but the query of the record answers with no row. -/
theorem file_without_row :
    (Link.rejecting []).connect () = (.ok (), ()) ∧
    (Link.rejecting []).send .connection "BEGIN" none () = (.ok (.ofRows [] none), ()) ∧
    ∃ statements released r s' w',
      populateWithin (.rejecting []) (.ofText "x") "f" (.single "a")
          ({ name := "t" } : Table).mapping ({}, ()) =
        (released.bind fun _ => r, (s', w')) ∧
      populateWithin (Link.rejecting []).noting (Source.ofText "x").beside "f"
          (Decoder.single "a").beside ({ name := "t" } : Table).mapping.beside ({}, ([], ())) =
        (released.bind fun _ => r,
          (s', (.connect (.ok ()) :: (statements.map .onConnection ++ [.release released]), w'))) ∧
      LandsWhole (.rejecting []) (.ofText "x") "f" (.single "a") ({ name := "t" } : Table).mapping
        {} () (.ofRows [] none) statements r s' :=
  ⟨rfl, rfl, file_lands_whole (.ofText "x") "f" (.single "a") _ {} rfl rfl⟩

end Database

end Seedbed
