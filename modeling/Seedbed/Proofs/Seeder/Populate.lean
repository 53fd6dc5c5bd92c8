import Seedbed.Proofs.Seeder.Inserts

/-! What one call of `populate` leaves behind, at whatever stage it fails and at whatever record.
An insert function that may answer with a promise leaves the same when its call runs alone. -/

namespace Seedbed

abbrev AsyncInserter (σ : Type) := Registry → Value → StateM σ Delivery

namespace AsyncInserter

variable {σ : Type}

/-- The insert that waits until the call has settled. -/
def settled (insert : AsyncInserter σ) : Inserter σ :=
  fun names record w => ((insert names record w).1.settled, (insert names record w).2)

def noting (insert : AsyncInserter σ) : AsyncInserter (List Call × σ) :=
  fun names record (calls, w) =>
    ((insert names record w).1,
      (calls ++ [.insert record (insert names record w).1.settled], (insert names record w).2))

theorem settled_noting (insert : AsyncInserter σ) : insert.noting.settled = insert.settled.noting :=
  rfl

end AsyncInserter

/-! ### The fault of an insert -/

namespace Fault

theorem withCause_code (f : Fault) (e : Thrown) : (f.withCause e).code = f.code := by
  unfold withCause
  split <;> rfl

theorem withCause_context (f : Fault) (e : Thrown) : (f.withCause e).context = f.context := by
  unfold withCause
  split <;> rfl

/-- The cause is what was given, and there is none where that is the absent value. -/
theorem withCause_cause {f : Fault} (h : f.cause = none) (e : Thrown) :
    (f.withCause e).cause.getD (.value .absent) = e := by
  unfold withCause
  split
  · rw [h]
    rfl
  · rfl

end Fault

namespace Seeder

variable {σ : Type} {source : Source σ} {filename : String} {decoder : Decoder σ}
  {insert : Inserter σ} {s : Seeder} {w w₁ w' : σ}

/-! ### The stages of a call -/

def loadFailed (filename : String) (e : Thrown) (s : Seeder) : Seeder :=
  (s.note (populatingLine filename s.baseDir)).note (loadFailedLine filename e)

def loaded (filename : String) (s : Seeder) : Seeder :=
  { s.note (populatingLine filename s.baseDir) with filenames := s.filenames ++ [filename] }

theorem load_error {e : Thrown}
    (h : loadRecords source filename decoder (some s.baseDir) s.names w = (.error e, w')) :
    load source filename decoder (s, w) = (.error e, (s.loadFailed filename e, w')) := by
  have ho : (loadRecords source filename decoder (some s.baseDir) s.names).beside.outcome
      (s.note (populatingLine filename s.baseDir), w) =
      (.ok (.error e), (s.note (populatingLine filename s.baseDir), w')) := by
    rw [Action.outcome_run, Action.beside_run, h]
  exact (Action.bind_ok (Action.state_run s w)).trans
    ((Action.bind_ok (Action.change_run _ s w)).trans (Action.bind_ok ho))

theorem load_ok {records : Records}
    (h : loadRecords source filename decoder (some s.baseDir) s.names w = (.ok records, w')) :
    load source filename decoder (s, w) = (.ok records, (s.loaded filename, w')) := by
  have ho : (loadRecords source filename decoder (some s.baseDir) s.names).beside.outcome
      (s.note (populatingLine filename s.baseDir), w) =
      (.ok (.ok records), (s.note (populatingLine filename s.baseDir), w')) := by
    rw [Action.outcome_run, Action.beside_run, h]
  exact (Action.bind_ok (Action.state_run s w)).trans
    ((Action.bind_ok (Action.change_run _ s w)).trans (Action.bind_ok ho))

theorem populate_unloaded {e : Thrown}
    (h : loadRecords source filename decoder (some s.baseDir) s.names w = (.error e, w')) :
    populate source filename decoder insert (s, w) =
      (.error e, (s.loadFailed filename e, w')) :=
  Action.bind_error (load_error h)

theorem populate_loaded {records : Records}
    (h : loadRecords source filename decoder (some s.baseDir) s.names w = (.ok records, w')) :
    populate source filename decoder insert (s, w) =
      insertAll filename insert records.entries (s.loaded filename, w') :=
  Action.bind_ok (load_ok h)

/-! ### Promises -/

/-- One step of a run that no other run comes between. -/
theorem finish_cons (insert : AsyncInserter σ) (filename label : String) (record : Value)
    (pending : List (String × Value)) (ids : List Identifier) (n : Nat) (s : Seeder) (w : σ) :
    Run.finish insert (n + 1) { filename, ids, pending := (label, record) :: pending } (s, w) =
      match insert.settled s.names record w with
      | (.ok id, w₁) => Run.finish insert n { filename, ids := ids ++ [id], pending }
          (s.register filename label id, w₁)
      | (.error e, w₁) => (.error (.fault (Fault.insertFailed filename label e)),
          (s.noteFailure filename label e, w₁)) := by
  have hget : (get : Action (Seeder × σ) (Seeder × σ)) (s, w) = (.ok (s, w), (s, w)) := rfl
  have hset : ∀ st, (set st : Action (Seeder × σ) PUnit) (s, w) = (.ok ⟨⟩, st) := fun _ => rfl
  cases hi : insert s.names record w with
  | mk delivery w₁ =>
    rw [Run.finish]
    refine (Action.bind_ok hget).trans ?_
    simp only [hi, AsyncInserter.settled]
    refine (Action.bind_ok (hset _)).trans ?_
    cases delivery.settled with
    | ok id => rfl
    | error e => rfl

theorem finish_eq (insert : AsyncInserter σ) (filename : String)
    (pending : List (String × Value)) (ids : List Identifier) (s : Seeder) (w : σ) :
    Run.finish insert pending.length { filename, ids, pending } (s, w) =
      (insertAll filename insert.settled pending >>= fun new => pure (ids ++ new)) (s, w) := by
  -- a run keeps the identifiers so far in front, `insertAll` adds them on the way back
  induction pending generalizing ids s w with
  | nil =>
    show _ = (Except.ok (ids ++ []), (s, w))
    rw [List.append_nil]
    rfl
  | cons entry pending ih =>
    obtain ⟨label, record⟩ := entry
    rw [List.length_cons, finish_cons]
    rcases Action.run_cases (insert.settled s.names record) w with ⟨id, w₁, h⟩ | ⟨e, w₁, h⟩
    · have hcons : insertAll filename insert.settled ((label, record) :: pending) (s, w) = _ :=
        insertAll_cons_ok h
      rw [h]
      refine (ih (ids ++ [id]) (s.register filename label id) w₁).trans ?_
      rcases Action.run_cases (insertAll filename insert.settled pending)
        (s.register filename label id, w₁) with ⟨new, st, hp⟩ | ⟨e, st, hp⟩
      · rw [Action.bind_ok hp, Action.bind_ok (hcons.trans (Action.bind_ok hp)),
          List.append_assoc]
        rfl
      · rw [Action.bind_error hp, Action.bind_error (hcons.trans (Action.bind_error hp))]
    · rw [h, Action.bind_error (insertAll_cons_error h)]

/-- Run alone, a call that waits for promises does what the call without promises does. -/
theorem populateAsync_eq (source : Source σ) (filename : String) (decoder : Decoder σ)
    (insert : AsyncInserter σ) :
    populateAsync source filename decoder insert =
      populate source filename decoder insert.settled := by
  funext ⟨s, w⟩
  rcases Action.run_cases (load source filename decoder) (s, w) with
    ⟨records, ⟨s₁, w₁⟩, hl⟩ | ⟨e, st, hl⟩
  · have hstart : Run.start source filename decoder (s, w) =
        (.ok { filename, pending := records.entries }, (s₁, w₁)) := Action.bind_ok hl
    have hp : populate source filename decoder insert.settled (s, w) =
        insertAll filename insert.settled records.entries (s₁, w₁) := Action.bind_ok hl
    rw [hp]
    refine (Action.bind_ok hstart).trans ((finish_eq insert filename _ [] s₁ w₁).trans ?_)
    rcases Action.run_cases (insertAll filename insert.settled records.entries) (s₁, w₁) with
      ⟨new, st, hi⟩ | ⟨e, st, hi⟩
    · rw [Action.bind_ok hi, hi]
      rfl
    · rw [Action.bind_error hi, hi]
  · have hstart : Run.start source filename decoder (s, w) = (.error e, st) := Action.bind_error hl
    have hp : populate source filename decoder insert.settled (s, w) = (.error e, st) :=
      Action.bind_error hl
    rw [hp]
    exact Action.bind_error hstart

/-! ### What a call leaves -/

def Ends (run : Action (Seeder × σ) (List Identifier))
    (watched : Action (Seeder × (List Call × σ)) (List Identifier)) (s : Seeder) (w : σ)
    (calls : List Call) (r : Except Thrown (List Identifier)) (s' : Seeder) (new : List Call)
    (w' : σ) : Prop :=
  run (s, w) = (r, (s', w')) ∧ watched (s, (calls, w)) = (r, (s', (calls ++ new, w')))

theorem Ends.unique {run : Action (Seeder × σ) (List Identifier)}
    {watched : Action (Seeder × (List Call × σ)) (List Identifier)} {calls new new' : List Call}
    {r r' : Except Thrown (List Identifier)} {s₁ s₁' : Seeder} {w₁' : σ}
    (h : Ends run watched s w calls r s₁ new w₁) (h' : Ends run watched s w calls r' s₁' new' w₁') :
    r = r' ∧ s₁ = s₁' ∧ new = new' ∧ w₁ = w₁' := by
  have hsame : (r, (s₁, (calls ++ new, w₁))) = (r', (s₁', (calls ++ new', w₁'))) :=
    h.2.symm.trans h'.2
  simp only [Prod.mk.injEq, List.append_cancel_left_eq] at hsame
  exact hsame

section ends

variable {calls : List Call} {records : Records}

theorem ends_unloaded (insert : Inserter σ) (calls : List Call) {e : Thrown}
    (h : loadRecords source filename decoder (some s.baseDir) s.names w = (.error e, w')) :
    ∃ new, LoadCalls source filename decoder (some s.baseDir) s.names w new ∧
      Ends (populate source filename decoder insert)
        (populate source.noting filename decoder.noting insert.noting) s w calls
        (.error e) (s.loadFailed filename e) new w' := by
  obtain ⟨new, hnew, hl⟩ :=
    loadRecords_noting source filename decoder (some s.baseDir) s.names calls w
  rw [h] at hl
  exact ⟨new, hnew, populate_unloaded h, populate_unloaded hl⟩

theorem ends_stopped (calls : List Call) {done : List (String × Value)} {label : String}
    {record : Value} {ids : List Identifier} {e : Thrown} {names : Registry}
    (h : loadRecords source filename decoder (some s.baseDir) s.names w = (.ok records, w₁))
    (hf : Action.FailsAt (registering insert) records.entries (s.names, w₁) done (label, record)
      ids e (names, w')) :
    ∃ new, LoadCalls source filename decoder (some s.baseDir) s.names w new ∧
      Ends (populate source filename decoder insert)
        (populate source.noting filename decoder.noting insert.noting) s w calls
        (.error (.fault (Fault.insertFailed filename label e)))
        (((s.loaded filename).registerAll filename ((done.map Prod.fst).zip ids)).noteFailure
          filename label e)
        (new ++ (insertCalls done ids ++ [.insert record (.error e)])) w' := by
  obtain ⟨new, hnew, hl⟩ :=
    loadRecords_noting source filename decoder (some s.baseDir) s.names calls w
  rw [h] at hl
  have hw : Action.FailsAt (registering insert.noting) records.entries
      ((s.loaded filename).names, (calls ++ new, w₁)) done (label, record) ids e _ :=
    failsAt_noting _ hf
  rw [List.append_assoc] at hw
  exact ⟨new, hnew, (populate_loaded h).trans (insertAll_error hf),
    (populate_loaded hl).trans (insertAll_error hw)⟩

theorem ends_finished (calls : List Call) {ids : List Identifier} {names : Registry}
    (h : loadRecords source filename decoder (some s.baseDir) s.names w = (.ok records, w₁))
    (he : Action.Each (registering insert) records.entries (s.names, w₁) ids (names, w')) :
    ∃ new, LoadCalls source filename decoder (some s.baseDir) s.names w new ∧
      Ends (populate source filename decoder insert)
        (populate source.noting filename decoder.noting insert.noting) s w calls
        (.ok ids)
        ((s.loaded filename).registerAll filename ((records.entries.map Prod.fst).zip ids))
        (new ++ insertCalls records.entries ids) w' := by
  obtain ⟨new, hnew, hl⟩ :=
    loadRecords_noting source filename decoder (some s.baseDir) s.names calls w
  rw [h] at hl
  have hw : Action.Each (registering insert.noting) records.entries
      ((s.loaded filename).names, (calls ++ new, w₁)) ids _ := each_noting _ he
  rw [List.append_assoc] at hw
  exact ⟨new, hnew, (populate_loaded h).trans (insertAll_ok he),
    (populate_loaded hl).trans (insertAll_ok hw)⟩

/-- How a call ends: its load fails, the insert of a record throws, or it inserts all records. -/
inductive Ending (source : Source σ) (filename : String) (decoder : Decoder σ) (insert : Inserter σ)
    (s : Seeder) (w : σ) : Except Thrown (List Identifier) → Seeder → List Call → σ → Prop
  | unloaded {e : Thrown} {new : List Call} {w' : σ}
      (fails : LoadFails source filename decoder (some s.baseDir) s.names w w')
      (load : loadRecords source filename decoder (some s.baseDir) s.names w = (.error e, w'))
      (asked : LoadCalls source filename decoder (some s.baseDir) s.names w new) :
      Ending source filename decoder insert s w (.error e) (s.loadFailed filename e) new w'
  | stopped {records : Records} {new : List Call} {done : List (String × Value)} {label : String}
      {record : Value} {ids : List Identifier} {e : Thrown} {names : Registry} {w₁ w' : σ}
      (yields : LoadYields source filename decoder (some s.baseDir) s.names w records w₁)
      (asked : LoadCalls source filename decoder (some s.baseDir) s.names w new)
      (fails : Action.FailsAt (registering insert) records.entries (s.names, w₁) done
        (label, record) ids e (names, w')) :
      Ending source filename decoder insert s w
        (.error (.fault (Fault.insertFailed filename label e)))
        (((s.loaded filename).registerAll filename ((done.map Prod.fst).zip ids)).noteFailure
          filename label e)
        (new ++ (insertCalls done ids ++ [.insert record (.error e)])) w'
  | finished {records : Records} {new : List Call} {ids : List Identifier} {names : Registry}
      {w₁ w' : σ}
      (yields : LoadYields source filename decoder (some s.baseDir) s.names w records w₁)
      (asked : LoadCalls source filename decoder (some s.baseDir) s.names w new)
      (each : Action.Each (registering insert) records.entries (s.names, w₁) ids (names, w')) :
      Ending source filename decoder insert s w (.ok ids)
        ((s.loaded filename).registerAll filename ((records.entries.map Prod.fst).zip ids))
        (new ++ insertCalls records.entries ids) w'

theorem exists_ending (source : Source σ) (filename : String) (decoder : Decoder σ)
    (insert : Inserter σ) (s : Seeder) (calls : List Call) (w : σ) : ∃ r s' new w',
    Ends (populate source filename decoder insert)
      (populate source.noting filename decoder.noting insert.noting) s w calls r s' new w' ∧
    Ending source filename decoder insert s w r s' new w' := by
  rcases loadFails_or_yields source filename decoder (some s.baseDir) s.names w with
    ⟨w', h⟩ | ⟨records, w₁, h⟩
  · obtain ⟨e, hl⟩ := h.run
    obtain ⟨new, hnew, hends⟩ := ends_unloaded insert calls hl
    exact ⟨_, _, _, _, hends, .unloaded h hl hnew⟩
  · rcases Action.each_or_fails (registering insert) records.entries (s.names, w₁) with
      ⟨ids, ⟨names, w'⟩, he⟩ | ⟨done, ⟨label, record⟩, ids, e, ⟨names, w'⟩, hf⟩
    · obtain ⟨new, hnew, hends⟩ := ends_finished calls h.run he
      exact ⟨_, _, _, _, hends, .finished h hnew he⟩
    · obtain ⟨new, hnew, hends⟩ := ends_stopped calls h.run hf
      exact ⟨_, _, _, _, hends, .stopped h hnew hf⟩

theorem Ending.baseDir {r : Except Thrown (List Identifier)} {s' : Seeder} {new : List Call}
    (h : Ending source filename decoder insert s w r s' new w') : s'.baseDir = s.baseDir := by
  cases h with
  | unloaded => rfl
  | stopped => exact (registerAll_kept filename _ _).2.2
  | finished => exact (registerAll_kept filename _ _).2.2

end ends

/-- What a call leaves, said of the stages of its load and of its inserts alone. -/
structure Leaves (source : Source σ) (filename : String) (decoder : Decoder σ)
    (insert : Inserter σ) (run : Action (Seeder × σ) (List Identifier))
    (watched : Action (Seeder × (List Call × σ)) (List Identifier)) (s : Seeder) (w : σ) :
    Prop where
  /-- A stage of the load fails: nothing is inserted and nothing changes. -/
  unloaded : ∀ w', LoadFails source filename decoder (some s.baseDir) s.names w w' →
    ∃ e s' calls, Ends run watched s w [] (.error e) s' calls w' ∧
      calls.filterMap Call.record? = [] ∧
      s'.names = s.names ∧ s'.filenames = s.filenames ∧ s'.baseDir = s.baseDir
  /-- The insert of a record throws: those before it are registered, it and those after it are not,
  none after it is inserted, and the file counts as loaded. -/
  stopped : ∀ records w₁ done label record ids e names w',
    LoadYields source filename decoder (some s.baseDir) s.names w records w₁ →
    Action.FailsAt (registering insert) records.entries (s.names, w₁) done (label, record) ids e
      (names, w') →
    ∃ f s' calls, Ends run watched s w [] (.error (.fault f)) s' calls w' ∧
      f.code = .insertFailed ∧
      f.context = { filename := some filename, label := some label } ∧
      f.cause.getD (.value .absent) = e ∧
      calls.filterMap Call.record? = done.map Prod.snd ++ [record] ∧
      s'.filenames = s.filenames ++ [filename] ∧ s'.baseDir = s.baseDir ∧
      ids.length = done.length ∧
      s'.names = s.names.registered ((done.map Prod.fst).zip ids) ∧
      (∀ l ∉ done.map Prod.fst, s'.lookup l = s.lookup l) ∧
      ∀ entry ∈ records.entries, entry ∉ done → s'.lookup entry.1 = s.lookup entry.1
  /-- No insert throws. -/
  finished : ∀ records w₁ ids names w',
    LoadYields source filename decoder (some s.baseDir) s.names w records w₁ →
    Action.Each (registering insert) records.entries (s.names, w₁) ids (names, w') →
    ∃ s' calls, Ends run watched s w [] (.ok ids) s' calls w' ∧
      calls.filterMap Call.record? = records.entries.map Prod.snd ∧
      s'.filenames = s.filenames ++ [filename] ∧ s'.baseDir = s.baseDir ∧
      ids.length = records.size ∧
      s'.names = s.names.registered (records.keys.zip ids) ∧
      ∀ l ∉ records.keys, s'.lookup l = s.lookup l
  /-- One of the three is the case. -/
  total : (∃ w', LoadFails source filename decoder (some s.baseDir) s.names w w') ∨
    ∃ records w₁, LoadYields source filename decoder (some s.baseDir) s.names w records w₁ ∧
      ((∃ ids st, Action.Each (registering insert) records.entries (s.names, w₁) ids st) ∨
        ∃ done entry ids e st,
          Action.FailsAt (registering insert) records.entries (s.names, w₁) done entry ids e st)

theorem lookup_registerAll (filename : String) (s : Seeder) {entries : List (String × Value)}
    {ids : List Identifier} {l : String} (h : ids.length = entries.length)
    (hl : l ∉ entries.map Prod.fst) :
    (s.registerAll filename ((entries.map Prod.fst).zip ids)).lookup l = s.lookup l := by
  have hkeys : ((entries.map Prod.fst).zip ids).map Prod.fst = entries.map Prod.fst :=
    List.map_fst_zip (by rw [List.length_map, h])
  rw [lookup, (registerAll_kept filename s _).1,
    Registry.lookup_registered_of_not_mem _ (by rwa [hkeys]), lookup]

/-- No label stands both before and after a place. -/
theorem not_mem_keys_of_split {entries done later : List (String × Value)} {entry : String × Value}
    (h : entries = done ++ later) (hn : (entries.map Prod.fst).Nodup) (hentry : entry ∈ entries)
    (hnot : entry ∉ done) : entry.1 ∉ done.map Prod.fst := by
  subst h
  rw [List.map_append, List.nodup_append] at hn
  have hlater : entry ∈ later := (List.mem_append.1 hentry).resolve_left hnot
  intro hmem
  exact hn.2.2 _ hmem _ (List.mem_map_of_mem hlater) rfl

theorem leaves_populate (source : Source σ) (filename : String) (decoder : Decoder σ)
    (insert : Inserter σ) (s : Seeder) (w : σ) :
    Leaves source filename decoder insert (populate source filename decoder insert)
      (populate source.noting filename decoder.noting insert.noting) s w where
  unloaded w' h := by
    obtain ⟨e, hl⟩ := h.run
    obtain ⟨new, hnew, hends⟩ := ends_unloaded insert [] hl
    exact ⟨e, _, new, hends, hnew.record?, rfl, rfl, rfl⟩
  stopped records w₁ done label record ids e names w' h hf := by
    obtain ⟨new, hnew, hends⟩ := ends_stopped [] h.run hf
    obtain ⟨⟨rest, hsplit⟩, w₂, hdone, -⟩ := hf.split
    obtain ⟨hnames, hfiles, hdir⟩ :=
      registerAll_kept filename (s.loaded filename) ((done.map Prod.fst).zip ids)
    have hlength := hdone.length
    refine ⟨_, _, _, hends, Fault.withCause_code _ _, Fault.withCause_context _ _,
      Fault.withCause_cause rfl e, ?_, hfiles, hdir, hlength, hnames, ?_, ?_⟩
    · rw [List.filterMap_append, List.filterMap_append, hnew.record?, insertCalls_record? hlength]
      rfl
    · intro l hl
      exact lookup_registerAll filename (s.loaded filename) hlength hl
    · intro entry hentry hnot
      exact lookup_registerAll filename (s.loaded filename) hlength
        (not_mem_keys_of_split hsplit records.nodup hentry hnot)
  finished records w₁ ids names w' h he := by
    obtain ⟨new, hnew, hends⟩ := ends_finished [] h.run he
    obtain ⟨hnames, hfiles, hdir⟩ :=
      registerAll_kept filename (s.loaded filename) ((records.entries.map Prod.fst).zip ids)
    have hlength := he.length
    refine ⟨_, _, hends, ?_, hfiles, hdir, hlength, hnames, ?_⟩
    · rw [List.filterMap_append, hnew.record?, insertCalls_record? hlength]
      rfl
    · intro l hl
      exact lookup_registerAll filename (s.loaded filename) hlength hl
  total := by
    rcases loadFails_or_yields source filename decoder (some s.baseDir) s.names w with
      h | ⟨records, w₁, h⟩
    · exact .inl h
    · refine .inr ⟨records, w₁, h, ?_⟩
      rcases Action.each_or_fails (registering insert) records.entries (s.names, w₁) with
        ⟨ids, st, he⟩ | ⟨done, entry, ids, e, st, hf⟩
      · exact .inl ⟨ids, st, he⟩
      · exact .inr ⟨done, entry, ids, e, st, hf⟩

/-- A call leaves the same whether its insert function answers at once or with promises, whatever
its arguments and the seeder. -/
theorem populate_leaves (source : Source σ) (filename : String) (decoder : Decoder σ) (s : Seeder)
    (w : σ) :
    (∀ insert : Inserter σ,
      Leaves source filename decoder insert (populate source filename decoder insert)
        (populate source.noting filename decoder.noting insert.noting) s w) ∧
    ∀ insert : AsyncInserter σ,
      Leaves source filename decoder insert.settled (populateAsync source filename decoder insert)
        (populateAsync source.noting filename decoder.noting insert.noting) s w := by
  refine ⟨fun insert => leaves_populate source filename decoder insert s w, fun insert => ?_⟩
  rw [populateAsync_eq, populateAsync_eq, AsyncInserter.settled_noting]
  exact leaves_populate source filename decoder insert.settled s w

end Seeder

end Seedbed
