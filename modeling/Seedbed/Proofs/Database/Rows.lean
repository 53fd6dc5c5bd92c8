import Seedbed.Sql.Table
import Seedbed.Proofs.Beside
import Seedbed.Proofs.Database.Transaction
import Seedbed.Proofs.Seeder.Populate

/-! Files whose records are inserted as rows of a table. The database gets one query for each record
in the order of the file, up to and including that of the first record that can not be inserted; no
query is sent for a record that has no row, or whose row can not be written. -/

namespace Seedbed

def RowMapping.beside {S σ : Type} (mapping : RowMapping σ) : RowMapping (S × σ) where
  table := mapping.table
  idColumn := mapping.idColumn
  toRow record := (mapping.toRow record).beside

namespace Database

variable {σ ε : Type}

/-! ### One record -/

def Query.inserting (q : Seedbed.Query) (answer : Except Thrown Outcome) : Query :=
  { sql := q.sql, parameters := some q.parameters, answer }

def Builds (mapping : RowMapping σ) (record : Value) (w : σ) (q : Seedbed.Query) (w' : σ) : Prop :=
  ∃ row, mapping.toRow record w = (.ok row, w') ∧
    Seedbed.Query.insert mapping.table row mapping.idColumn = .ok q

/-- The first of the rows has the identifier in this column. -/
def Names (idColumn : String) (rows : List Value) (id : Identifier) : Prop :=
  ∃ row rest, rows = row :: rest ∧ row.field? idColumn = some id.toValue

/-- How the insert of a record goes: the queries it sends, of which there is one or none, and what
it ends with. -/
inductive Attempt (send : Sender σ) (mapping : RowMapping σ) (record : Value) (w : σ) :
    List Query → Except Thrown Identifier → σ → Prop
  | unmade {e : Thrown} {w₁ : σ} (made : mapping.toRow record w = (.error e, w₁)) :
      Attempt send mapping record w [] (.error e) w₁
  | unbuilt {row : Value} {f : Failure} {w₁ : σ} (made : mapping.toRow record w = (.ok row, w₁))
      (built : Seedbed.Query.insert mapping.table row mapping.idColumn = .error f) :
      Attempt send mapping record w [] (.error (.failure f)) w₁
  | rejected {q : Seedbed.Query} {e : Thrown} {w₁ w₂ : σ} (builds : Builds mapping record w q w₁)
      (sent : send q.sql (some q.parameters) w₁ = (.error e, w₂)) :
      Attempt send mapping record w [.inserting q (.error e)] (.error e) w₂
  | unnamed {q : Seedbed.Query} {o : Outcome} {w₁ w₂ : σ} (builds : Builds mapping record w q w₁)
      (sent : send q.sql (some q.parameters) w₁ = (.ok o, w₂))
      (none : ∀ id, ¬Names mapping.idColumn o.rows id) :
      Attempt send mapping record w [.inserting q (.ok o)]
        (.error (.failure mapping.noIdentifier)) w₂
  | inserted {q : Seedbed.Query} {o : Outcome} {id : Identifier} {w₁ w₂ : σ}
      (builds : Builds mapping record w q w₁)
      (sent : send q.sql (some q.parameters) w₁ = (.ok o, w₂))
      (names : Names mapping.idColumn o.rows id) :
      Attempt send mapping record w [.inserting q (.ok o)] (.ok id) w₂

theorem ofValue?_eq_some_iff {v : Value} {id : Identifier} :
    Identifier.ofValue? v = some id ↔ v = id.toValue := by
  constructor
  · intro h
    cases v <;> cases h <;> rfl
  · rintro rfl
    cases id <;> rfl

theorem identifier?_eq_some_iff {idColumn : String} {rows : List Value} {id : Identifier} :
    RowMapping.identifier? idColumn rows = some id ↔ Names idColumn rows id := by
  cases rows with
  | nil =>
    refine ⟨nofun, ?_⟩
    rintro ⟨row, rest, h, -⟩
    cases h
  | cons row rest =>
    rw [RowMapping.identifier?, Option.bind_eq_some_iff]
    constructor
    · rintro ⟨v, hv, h⟩
      exact ⟨row, rest, rfl, by rw [hv, ofValue?_eq_some_iff.1 h]⟩
    · rintro ⟨row', rest', h, hv⟩
      cases h
      exact ⟨_, hv, ofValue?_eq_some_iff.2 rfl⟩

theorem rowsOf_ok {send : Sender σ} {sql : String} {parameters : List Value} {o : Outcome}
    {w w' : σ} (h : send sql (some parameters) w = (.ok o, w')) :
    rowsOf send sql parameters w = (.ok o.rows, w') :=
  Action.bind_ok h

theorem rowsOf_error {send : Sender σ} {sql : String} {parameters : List Value} {e : Thrown}
    {w w' : σ} (h : send sql (some parameters) w = (.error e, w')) :
    rowsOf send sql parameters w = (.error e, w') :=
  Action.bind_error h

section attempt

variable {send : Sender σ} {mapping : RowMapping σ} {record : Value} {w w' : σ}
  {queries : List Query} {r : Except Thrown Identifier}

theorem Builds.insert_eq {q : Seedbed.Query} (h : Builds mapping record w q w')
    (run : Querier σ) : mapping.insert run record w = (run q.sql q.parameters >>= fun rows =>
      match RowMapping.identifier? mapping.idColumn rows with
      | some id => pure id
      | none => throw (.failure mapping.noIdentifier)) w' := by
  obtain ⟨row, made, built⟩ := h
  have hbuilt : Action.ofExcept .failure
      (Seedbed.Query.insert mapping.table row mapping.idColumn) w' = (.ok q, w') := by
    rw [built]
    rfl
  exact (Action.bind_ok made).trans (Action.bind_ok hbuilt)

theorem Attempt.run (h : Attempt send mapping record w queries r w') :
    mapping.insert (rowsOf send) record w = (r, w') := by
  cases h with
  | unmade made => exact Action.bind_error made
  | @unbuilt row f _ made built =>
    have hbuilt : (Action.ofExcept .failure
        (Seedbed.Query.insert mapping.table row mapping.idColumn) : Action σ Seedbed.Query) w' =
          (.error (.failure f), w') := by
      rw [built]
      rfl
    exact (Action.bind_ok made).trans (Action.bind_error hbuilt)
  | rejected builds sent =>
    rw [builds.insert_eq, Action.bind_error (rowsOf_error sent)]
  | @unnamed q o _ _ builds sent none =>
    have hnone : RowMapping.identifier? mapping.idColumn o.rows = Option.none :=
      Option.eq_none_iff_forall_ne_some.2 fun id h => none id (identifier?_eq_some_iff.1 h)
    rw [builds.insert_eq, Action.bind_ok (rowsOf_ok sent), hnone]
    rfl
  | inserted builds sent names =>
    rw [builds.insert_eq, Action.bind_ok (rowsOf_ok sent), identifier?_eq_some_iff.2 names]
    rfl

theorem exists_attempt (send : Sender σ) (mapping : RowMapping σ) (record : Value) (w : σ) :
    ∃ queries r w', Attempt send mapping record w queries r w' := by
  rcases Action.run_cases (mapping.toRow record) w with ⟨row, w₁, made⟩ | ⟨e, w₁, made⟩
  · cases built : Seedbed.Query.insert mapping.table row mapping.idColumn with
    | error f => exact ⟨_, _, _, .unbuilt made built⟩
    | ok q =>
      have builds : Builds mapping record w q w₁ := ⟨row, made, built⟩
      rcases Action.run_cases (send q.sql (some q.parameters)) w₁ with
        ⟨o, w₂, sent⟩ | ⟨e, w₂, sent⟩
      · by_cases hnames : ∃ id, Names mapping.idColumn o.rows id
        · obtain ⟨id, names⟩ := hnames
          exact ⟨_, _, _, .inserted builds sent names⟩
        · exact ⟨_, _, _, .unnamed builds sent (not_exists.1 hnames)⟩
      · exact ⟨_, _, _, .rejected builds sent⟩
  · exact ⟨_, _, _, .unmade made⟩

/-- A record is inserted just if its query answers with a first row that has an identifier in the
column, and then that is the identifier of the record. -/
theorem insert_eq_ok_iff (send : Sender σ) (mapping : RowMapping σ) (record : Value) (w : σ)
    (id : Identifier) : (mapping.insert (rowsOf send) record w).1 = .ok id ↔
      ∃ q w₁ o w₂, Builds mapping record w q w₁ ∧
        send q.sql (some q.parameters) w₁ = (.ok o, w₂) ∧ Names mapping.idColumn o.rows id := by
  constructor
  · intro hok
    obtain ⟨queries, r, w', h⟩ := exists_attempt send mapping record w
    rw [h.run] at hok
    cases hok
    cases h with
    | inserted builds sent names => exact ⟨_, _, _, _, builds, sent, names⟩
  · rintro ⟨q, w₁, o, w₂, builds, sent, names⟩
    rw [(Attempt.inserted builds sent names).run]

/-! ### Written queries -/

def notingQueries (event : Query → ε) (send : Sender σ) : Sender (List ε × σ) :=
  fun sql parameters (events, w) =>
    ((send sql parameters w).1,
      (events ++ [event { sql, parameters, answer := (send sql parameters w).1 }],
        (send sql parameters w).2))

theorem notingQueries_run {q : Seedbed.Query} {answer : Except Thrown Outcome}
    (sent : send q.sql (some q.parameters) w = (answer, w')) (event : Query → ε)
    (events : List ε) :
    notingQueries event send q.sql (some q.parameters) (events, w) =
      (answer, (events ++ [event (.inserting q answer)], w')) := by
  rw [notingQueries, sent]
  rfl

theorem Builds.beside {q : Seedbed.Query} (h : Builds mapping record w q w') (events : List ε) :
    Builds mapping.beside record (events, w) q (events, w') := by
  obtain ⟨row, made, built⟩ := h
  exact ⟨row, Action.beside_of_run made events, built⟩

theorem Attempt.noting (h : Attempt send mapping record w queries r w') (event : Query → ε)
    (events : List ε) :
    Attempt (notingQueries event send) mapping.beside record (events, w) queries r
      (events ++ queries.map event, w') := by
  cases h with
  | unmade made =>
    rw [List.map_nil, List.append_nil]
    exact .unmade (Action.beside_of_run made events)
  | unbuilt made built =>
    rw [List.map_nil, List.append_nil]
    exact .unbuilt (Action.beside_of_run made events) built
  | rejected builds sent =>
    exact .rejected (builds.beside events) (notingQueries_run sent event events)
  | unnamed builds sent none =>
    exact .unnamed (builds.beside events) (notingQueries_run sent event events) none
  | inserted builds sent names =>
    exact .inserted (builds.beside events) (notingQueries_run sent event events) names

end attempt

/-! ### All records of a file -/

inductive Inserted (send : Sender σ) (mapping : RowMapping σ) :
    List (String × Value) → σ → List Query → List Identifier → σ → Prop
  | nil {w : σ} : Inserted send mapping [] w [] [] w
  | cons {entry : String × Value} {entries : List (String × Value)} {query : Query}
      {queries : List Query} {id : Identifier} {ids : List Identifier} {w w₁ w₂ : σ}
      (head : Attempt send mapping entry.2 w [query] (.ok id) w₁)
      (tail : Inserted send mapping entries w₁ queries ids w₂) :
      Inserted send mapping (entry :: entries) w (query :: queries) (id :: ids) w₂

/-- The records before `entry` are inserted in order, by one query each, and the insert of `entry`
throws `e`. Its query is the last one, if it has any. -/
inductive Stops (send : Sender σ) (mapping : RowMapping σ) (entries : List (String × Value))
    (w : σ) : List (String × Value) → String × Value → List Query → List Identifier → Thrown →
      σ → Prop
  | intro {done rest : List (String × Value)} {entry : String × Value} {queries last : List Query}
      {ids : List Identifier} {e : Thrown} {w₁ w₂ : σ} (split : entries = done ++ entry :: rest)
      (inserted : Inserted send mapping done w queries ids w₁)
      (failed : Attempt send mapping entry.2 w₁ last (.error e) w₂) :
      Stops send mapping entries w done entry (queries ++ last) ids e w₂

theorem inserted_or_stops (send : Sender σ) (mapping : RowMapping σ)
    (entries : List (String × Value)) (w : σ) :
    (∃ queries ids w', Inserted send mapping entries w queries ids w') ∨
      ∃ done entry queries ids e w', Stops send mapping entries w done entry queries ids e w' := by
  induction entries generalizing w with
  | nil => exact .inl ⟨[], [], w, .nil⟩
  | cons entry entries ih =>
    obtain ⟨queries, r, w₁, h⟩ := exists_attempt send mapping entry.2 w
    cases h with
    | unmade made => exact .inr ⟨_, _, _, _, _, _, .intro rfl .nil (.unmade made)⟩
    | unbuilt made built => exact .inr ⟨_, _, _, _, _, _, .intro rfl .nil (.unbuilt made built)⟩
    | rejected builds sent =>
      exact .inr ⟨_, _, _, _, _, _, .intro rfl .nil (.rejected builds sent)⟩
    | unnamed builds sent none =>
      exact .inr ⟨_, _, _, _, _, _, .intro rfl .nil (.unnamed builds sent none)⟩
    | inserted builds sent names =>
      have head := Attempt.inserted builds sent names
      rcases ih w₁ with ⟨queries, ids, w', h⟩ | ⟨done, a, queries, ids, e, w', h⟩
      · exact .inl ⟨_, _, _, .cons head h⟩
      · cases h with
        | intro split inserted failed =>
          exact .inr ⟨_, _, _, _, _, _,
            .intro (congrArg (entry :: ·) split) (.cons head inserted) failed⟩

section inserted

variable {send : Sender σ} {mapping : RowMapping σ} {entries done : List (String × Value)}
  {entry : String × Value} {queries : List Query} {ids : List Identifier} {e : Thrown} {w w' : σ}

theorem Inserted.length (h : Inserted send mapping entries w queries ids w') :
    queries.length = entries.length ∧ ids.length = entries.length := by
  induction h with
  | nil => exact ⟨rfl, rfl⟩
  | cons head tail ih => exact ⟨congrArg (· + 1) ih.1, congrArg (· + 1) ih.2⟩

theorem Inserted.noting (h : Inserted send mapping entries w queries ids w') (event : Query → ε)
    (events : List ε) :
    Inserted (notingQueries event send) mapping.beside entries (events, w) queries ids
      (events ++ queries.map event, w') := by
  induction h generalizing events with
  | nil =>
    rw [List.map_nil, List.append_nil]
    exact .nil
  -- the queries of the tail are written behind that of the head
  | @cons _ _ query _ _ _ _ _ _ head tail ih =>
    have ht := ih (events ++ [event query])
    rw [List.append_assoc] at ht
    exact .cons (head.noting event events) ht

theorem Stops.noting (h : Stops send mapping entries w done entry queries ids e w')
    (event : Query → ε) (events : List ε) :
    Stops (notingQueries event send) mapping.beside entries (events, w) done entry queries ids e
      (events ++ queries.map event, w') := by
  cases h with
  | intro split inserted failed =>
    rw [List.map_append, ← List.append_assoc]
    exact .intro split (inserted.noting event events) (failed.noting event _)

/-- The inserts of the records, as the seeder makes them. -/
theorem Inserted.each (h : Inserted send mapping entries w queries ids w') (names : Registry) :
    Action.Each (Seeder.registering (AsyncInserter.settled (mapping.inserter (rowsOf send))))
      entries (names, w) ids (names.registered ((entries.map Prod.fst).zip ids), w') := by
  induction h generalizing names with
  | nil => exact .nil
  | cons head tail ih => exact .cons (Seeder.registering_ok head.run) (ih _)

theorem Stops.failsAt (h : Stops send mapping entries w done entry queries ids e w')
    (names : Registry) :
    Action.FailsAt (Seeder.registering (AsyncInserter.settled (mapping.inserter (rowsOf send))))
      entries (names, w) done entry ids e
      (names.registered ((done.map Prod.fst).zip ids), w') := by
  cases h with
  | intro split inserted failed =>
    rw [split]
    exact (inserted.each names).failsAt (Seeder.registering_error failed.run)

end inserted

/-! ### A call -/

/-- How a call ends that populates a file by rows: its load fails and nothing is sent, the insert of
a record throws, or all of them answer. -/
inductive Written (send : Sender σ) (source : Source σ) (filename : String) (decoder : Decoder σ)
    (mapping : RowMapping σ) (s : Seeder) (w : σ) :
    List Query → Except Thrown (List Identifier) → Seeder → σ → Prop
  | unloaded {e : Thrown} {w' : σ}
      (load : loadRecords source filename decoder (some s.baseDir) s.names w = (.error e, w')) :
      Written send source filename decoder mapping s w [] (.error e) (s.loadFailed filename e) w'
  | stopped {records : Records} {done : List (String × Value)} {entry : String × Value}
      {queries : List Query} {ids : List Identifier} {e : Thrown} {w₁ w' : σ}
      (load : loadRecords source filename decoder (some s.baseDir) s.names w = (.ok records, w₁))
      (stops : Stops send mapping records.entries w₁ done entry queries ids e w') :
      Written send source filename decoder mapping s w queries
        (.error (.fault (Fault.insertFailed filename entry.1 e)))
        (((s.loaded filename).registerAll filename ((done.map Prod.fst).zip ids)).noteFailure
          filename entry.1 e) w'
  | finished {records : Records} {queries : List Query} {ids : List Identifier} {w₁ w' : σ}
      (load : loadRecords source filename decoder (some s.baseDir) s.names w = (.ok records, w₁))
      (inserted : Inserted send mapping records.entries w₁ queries ids w') :
      Written send source filename decoder mapping s w queries (.ok ids)
        ((s.loaded filename).registerAll filename ((records.entries.map Prod.fst).zip ids)) w'

section written

variable {send : Sender σ} {source : Source σ} {filename : String} {decoder : Decoder σ}
  {mapping : RowMapping σ} {s s' : Seeder} {queries : List Query}
  {r : Except Thrown (List Identifier)} {w w' : σ}

theorem exists_written (send : Sender σ) (source : Source σ) (filename : String)
    (decoder : Decoder σ) (mapping : RowMapping σ) (s : Seeder) (w : σ) :
    ∃ queries r s' w', Written send source filename decoder mapping s w queries r s' w' := by
  rcases Action.run_cases (loadRecords source filename decoder (some s.baseDir) s.names) w with
    ⟨records, w₁, load⟩ | ⟨e, w₁, load⟩
  · rcases inserted_or_stops send mapping records.entries w₁ with
      ⟨queries, ids, w', h⟩ | ⟨done, entry, queries, ids, e, w', h⟩
    · exact ⟨_, _, _, _, .finished load h⟩
    · exact ⟨_, _, _, _, .stopped load h⟩
  · exact ⟨_, _, _, _, .unloaded load⟩

theorem Written.run (h : Written send source filename decoder mapping s w queries r s' w') :
    Seeder.populateAsync source filename decoder (mapping.inserter (rowsOf send)) (s, w) =
      (r, (s', w')) := by
  rw [Seeder.populateAsync_eq]
  cases h with
  | unloaded load => exact Seeder.populate_unloaded load
  | stopped load stops =>
    exact (Seeder.populate_loaded load).trans (Seeder.insertAll_error (stops.failsAt s.names))
  | finished load inserted =>
    exact (Seeder.populate_loaded load).trans (Seeder.insertAll_ok (inserted.each s.names))

theorem Written.noting (h : Written send source filename decoder mapping s w queries r s' w')
    (event : Query → ε) (events : List ε) :
    Written (notingQueries event send) source.beside filename decoder.beside mapping.beside s
      (events, w) queries r s' (events ++ queries.map event, w') := by
  cases h with
  | unloaded load =>
    rw [List.map_nil, List.append_nil]
    exact .unloaded (by rw [loadRecords_beside, Action.beside_of_run load])
  | stopped load stops =>
    exact .stopped (by rw [loadRecords_beside, Action.beside_of_run load]) (stops.noting event events)
  | finished load inserted =>
    exact .finished (by rw [loadRecords_beside, Action.beside_of_run load])
      (inserted.noting event events)

end written

/-- What a call that populates a file by rows asks of the database, and what comes of it. -/
structure WritesRows (send : Sender σ) (source : Source σ) (filename : String) (decoder : Decoder σ)
    (mapping : RowMapping σ) (s : Seeder) (w : σ) (queries : List Query)
    (r : Except Thrown (List Identifier)) (s' : Seeder) (w' : σ) : Prop where
  unloaded : ∀ w₁, LoadFails source filename decoder (some s.baseDir) s.names w w₁ →
    queries = [] ∧ (∃ e, r = .error e) ∧ s'.names = s.names
  /-- One query is sent for each record, and the identifiers that they answer with are those of the
  answer and, as text, of the registry. Or else the first record that can not be inserted ends it,
  and neither this record nor a later one is registered. -/
  loaded : ∀ records w₁,
    LoadYields source filename decoder (some s.baseDir) s.names w records w₁ →
    (∃ ids, Inserted send mapping records.entries w₁ queries ids w' ∧ r = .ok ids ∧
      s'.names = s.names.registered (records.keys.zip ids) ∧
      ∀ p ∈ records.keys.zip ids, s'.lookup p.1 = some p.2.toText) ∨
    ∃ done label record ids e,
      Stops send mapping records.entries w₁ done (label, record) queries ids e w' ∧
      (∃ f, r = .error (.fault f) ∧ f.code = .insertFailed ∧
        f.context = { filename := some filename, label := some label } ∧
        f.cause.getD (.value .absent) = e) ∧
      s'.names = s.names.registered ((done.map Prod.fst).zip ids) ∧
      (∀ p ∈ (done.map Prod.fst).zip ids, s'.lookup p.1 = some p.2.toText) ∧
      ∀ entry ∈ records.entries, entry ∉ done → s'.lookup entry.1 = s.lookup entry.1
  total : (∃ w₁, LoadFails source filename decoder (some s.baseDir) s.names w w₁) ∨
    ∃ records w₁, LoadYields source filename decoder (some s.baseDir) s.names w records w₁

section registered

variable {filename : String} {records : Records} {done rest : List (String × Value)}
  {ids : List Identifier} {s s' : Seeder}

/-- The records inserted before a place are found under their labels. -/
theorem lookup_of_inserted (hsplit : records.entries = done ++ rest)
    (hlength : ids.length = done.length)
    (hs : s'.names = s.names.registered ((done.map Prod.fst).zip ids)) :
    ∀ p ∈ (done.map Prod.fst).zip ids, s'.lookup p.1 = some p.2.toText := by
  intro p hp
  have hn := records.nodup
  rw [hsplit, List.map_append, List.nodup_append] at hn
  have hkeys : ((done.map Prod.fst).zip ids).map Prod.fst = done.map Prod.fst :=
    List.map_fst_zip (by rw [List.length_map, hlength])
  rw [Seeder.lookup, hs]
  exact Registry.lookup_registered_of_mem _ (by rw [hkeys]; exact hn.1) hp

end registered

section written

variable {send : Sender σ} {source : Source σ} {filename : String} {decoder : Decoder σ}
  {mapping : RowMapping σ} {s s' : Seeder} {queries : List Query}
  {r : Except Thrown (List Identifier)} {w w' : σ}

theorem Written.writesRows
    (h : Written send source filename decoder mapping s w queries r s' w') :
    WritesRows send source filename decoder mapping s w queries r s' w' where
  unloaded := by
    intro w₁ hf
    obtain ⟨e, he⟩ := hf.run
    cases h with
    | unloaded load => exact ⟨rfl, ⟨_, rfl⟩, rfl⟩
    | stopped load stops => cases load.symm.trans he
    | finished load inserted => cases load.symm.trans he
  loaded := by
    intro records w₁ hy
    cases h with
    | unloaded load => cases load.symm.trans hy.run
    | @stopped _ done entry _ ids e _ _ load stops =>
      cases load.symm.trans hy.run
      have hstops := stops
      cases hstops with
      | intro hsplit inserted failed =>
        have hnames := (Seeder.registerAll_kept filename (s.loaded filename)
          ((done.map Prod.fst).zip ids)).1
        refine .inr ⟨done, entry.1, entry.2, ids, e, stops, ⟨_, rfl, Fault.withCause_code _ _,
          Fault.withCause_context _ _, Fault.withCause_cause rfl e⟩, hnames,
          lookup_of_inserted hsplit inserted.length.2 hnames, ?_⟩
        intro other hother hnot
        exact Seeder.lookup_registerAll filename (s.loaded filename) inserted.length.2
          (Seeder.not_mem_keys_of_split hsplit records.nodup hother hnot)
    | @finished _ _ ids _ _ load inserted =>
      cases load.symm.trans hy.run
      have hnames := (Seeder.registerAll_kept filename (s.loaded filename)
        (records.keys.zip ids)).1
      exact .inl ⟨ids, inserted, rfl, hnames,
        lookup_of_inserted (List.append_nil _).symm inserted.length.2 hnames⟩
  total := by
    rcases loadFails_or_yields source filename decoder (some s.baseDir) s.names w with hf | hy
    · exact .inl hf
    · exact .inr hy

end written

/-- A call that populates a file by rows sends the query of each record in the order of the file, up
to the first that can not be inserted. A record can be inserted just if its query answers with a
first row that has an identifier in the given column. -/
theorem rows_written_in_order (send : Sender σ) (source : Source σ) (filename : String)
    (decoder : Decoder σ) (mapping : RowMapping σ) (s : Seeder) (w : σ) :
    (∃ queries r s' w',
      Seeder.populateAsync source filename decoder (mapping.inserter (rowsOf send)) (s, w) =
        (r, (s', w')) ∧
      Seeder.populateAsync source.beside filename decoder.beside
        (mapping.beside.inserter (rowsOf (notingQueries id send))) (s, ([], w)) =
          (r, (s', (queries, w'))) ∧
      WritesRows send source filename decoder mapping s w queries r s' w') ∧
    ∀ record w id, (mapping.insert (rowsOf send) record w).1 = .ok id ↔
      ∃ q w₁ o w₂, Builds mapping record w q w₁ ∧
        send q.sql (some q.parameters) w₁ = (.ok o, w₂) ∧ Names mapping.idColumn o.rows id := by
  refine ⟨?_, insert_eq_ok_iff send mapping⟩
  obtain ⟨queries, r, s', w', h⟩ := exists_written send source filename decoder mapping s w
  refine ⟨queries, r, s', w', h.run, ?_, h.writesRows⟩
  have hn := (h.noting id []).run
  rwa [List.map_id, List.nil_append] at hn

end Database

end Seedbed
