import Mathlib.Data.List.Forall2
import Seedbed.Proofs.Mirrored
import Seedbed.Proofs.Seeder.Lines
import Seedbed.Proofs.Seeder.Session

/-! Identifiers and the log. Two sessions of the same calls, whose callers answer alike but for the
identifiers of inserts, write the same lines at the level of information. Where no file has a
reference, the identifiers go nowhere but into the registry, so all lines are the same. -/

namespace Seedbed

variable {σ τ : Type}

namespace Request

inductive SameCall : Request σ → Request τ → Prop
  | setDir (dir : String) : SameCall (.setDir dir) (.setDir dir)
  | populate (filename : String) (decoder : Decoder σ) (decoder' : Decoder τ) (insert : Inserter σ)
      (insert' : Inserter τ) :
      SameCall (.populate filename decoder insert) (.populate filename decoder' insert')
  | populateAsync (filename : String) (decoder : Decoder σ) (decoder' : Decoder τ)
      (insert : AsyncInserter σ) (insert' : AsyncInserter τ) :
      SameCall (.populateAsync filename decoder insert) (.populateAsync filename decoder' insert')

/-- The line that a call begins with, where files are looked for in this directory. -/
def announces (dir : String) (q : Request σ) : List Log.Line :=
  (q.file?.map fun file => Seeder.populatingLine file.1 dir).toList

def dirAfter (dir : String) : Request σ → String
  | setDir dir' => dir'
  | populate _ _ _ | populateAsync _ _ _ => dir

def announced (dir : String) : List (Request σ) → List Log.Line
  | [] => []
  | q :: requests => q.announces dir ++ announced (q.dirAfter dir) requests

theorem announced_eq {requests : List (Request σ)} {requests' : List (Request τ)}
    (h : List.Forall₂ SameCall requests requests') (dir : String) :
    announced dir requests' = announced dir requests := by
  induction h generalizing dir with
  | nil => rfl
  | cons head _ ih =>
    cases head with
    | setDir dir' => exact ih dir'
    | populate filename | populateAsync filename =>
      exact congrArg (Seeder.populatingLine filename dir :: ·) (ih dir)

end Request

namespace Seeder

/-! ### Lines at the level of information -/

theorem perform_infoLines (source : Source σ) (q : Request σ) (s : Seeder) (w : σ) :
    (q.perform source (s, w)).2.1.infoLines = s.infoLines ++ q.announces s.baseDir ∧
      (q.perform source (s, w)).2.1.baseDir = q.dirAfter s.baseDir := by
  cases hq : q.file? with
  | none =>
    cases q with
    | setDir dir => exact ⟨(List.append_nil _).symm, rfl⟩
    | populate | populateAsync => cases hq
  | some file =>
    obtain ⟨filename, decoder⟩ := file
    obtain ⟨insert, hp, -⟩ := Request.exists_inserter hq source
    obtain ⟨r, s', new, w', hends, hending⟩ := exists_ending source filename decoder insert s [] w
    have hdir : q.dirAfter s.baseDir = s.baseDir := by
      cases q with
      | setDir dir => cases hq
      | populate | populateAsync => rfl
    rw [hp, hends.1, hdir, Request.announces, hq]
    exact ⟨hending.infoLines, hending.baseDir⟩

theorem performAll_infoLines (source : Source σ) (requests : List (Request σ)) (s : Seeder)
    (w : σ) : (performAll source requests (s, w)).1.infoLines =
      s.infoLines ++ Request.announced s.baseDir requests := by
  induction requests generalizing s w with
  | nil => exact (List.append_nil _).symm
  | cons q requests ih =>
    obtain ⟨hlines, hdir⟩ := perform_infoLines source q s w
    have hrest := ih (q.perform source (s, w)).2.1 (q.perform source (s, w)).2.2
    rw [hlines, hdir, List.append_assoc] at hrest
    exact hrest

/-! ### Seeders that differ in identifiers -/

/-- Seeders that are the same but for the identifiers they have registered. -/
structure SameButIds (s s' : Seeder) : Prop where
  filenames : s'.filenames = s.filenames
  baseDir : s'.baseDir = s.baseDir
  log : s'.log = s.log
  labels : ∀ label, s'.names.has label = s.names.has label

namespace SameButIds

variable {s s' : Seeder} (h : s.SameButIds s')

include h

theorem note (line : Log.Line) : (s.note line).SameButIds (s'.note line) where
  filenames := h.filenames
  baseDir := h.baseDir
  log := congrArg (· ++ [line]) h.log
  labels := h.labels

theorem loaded (filename : String) : (s.loaded filename).SameButIds (s'.loaded filename) where
  filenames := congrArg (· ++ [filename]) h.filenames
  baseDir := h.baseDir
  log := by rw [Seeder.loaded, Seeder.loaded, h.baseDir]; exact (h.note _).log
  labels := h.labels

theorem loadFailed (filename : String) (e : Thrown) :
    (s.loadFailed filename e).SameButIds (s'.loadFailed filename e) := by
  rw [Seeder.loadFailed, Seeder.loadFailed, h.baseDir]
  exact (h.note _).note _

theorem register (filename label : String) (id id' : Identifier) :
    (s.register filename label id).SameButIds (s'.register filename label id') where
  filenames := by rw [register_filenames, register_filenames, h.filenames]
  baseDir := by rw [register_baseDir, register_baseDir, h.baseDir]
  log := by rw [register_log, register_log, h.log, h.labels label]
  labels l := by
    rw [register_names, register_names, Registry.has_insert, Registry.has_insert, h.labels l]

end SameButIds

/-! ### One call -/

/-- Two calls end alike: with the same error or with as many identifiers, and with seeders and calls
that differ in identifiers only. -/
structure EndAlike (end₁ : Except Thrown (List Identifier) × Seeder × List Call × σ)
    (end₂ : Except Thrown (List Identifier) × Seeder × List Call × τ) : Prop where
  result : end₂.1.map List.length = end₁.1.map List.length
  seeder : end₁.2.1.SameButIds end₂.2.1
  calls : Call.Agree end₁.2.2.1 end₂.2.2.1

/-- From seeders and calls that differ in identifiers only, two runs end alike, if all they write
down is the beginning of these lists. -/
def Discreet (calls calls' : List Call)
    (run : Action (Seeder × List Call × σ) (List Identifier))
    (run' : Action (Seeder × List Call × τ) (List Identifier)) : Prop :=
  ∀ s cs w s' cs' v, s.SameButIds s' → Call.Agree cs cs' →
    (run (s, cs, w)).2.2.1 <+: calls → (run' (s', cs', v)).2.2.1 <+: calls' →
    EndAlike (run (s, cs, w)) (run' (s', cs', v))

section discreet

variable {calls calls' : List Call} {filename : String} {insert : Inserter σ}
  {insert' : Inserter τ}

theorem writes_insertAll (entries : List (String × Value)) (s : Seeder) (cs : List Call) (w : σ) :
    cs <+: (insertAll filename insert.noting entries (s, cs, w)).2.2.1 := by
  rcases Action.each_or_fails (registering insert) entries (s.names, w) with
    ⟨ids, ⟨names, w'⟩, he⟩ | ⟨done, ⟨label, record⟩, ids, e, ⟨names, w'⟩, hf⟩
  · rw [insertAll_ok (each_noting cs he)]
    exact List.prefix_append _ _
  · rw [insertAll_error (failsAt_noting cs hf)]
    exact List.prefix_append _ _

theorem writes_insertAll_cons (label : String) (record : Value) (entries : List (String × Value))
    (s : Seeder) (cs : List Call) (w : σ) :
    cs ++ [.insert record (insert s.names record w).1] <+:
      (insertAll filename insert.noting ((label, record) :: entries) (s, cs, w)).2.2.1 := by
  rcases Action.run_cases (insert s.names record) w with ⟨id, w₁, hi⟩ | ⟨e, w₁, hi⟩
  · rw [insertAll_cons_ok (Inserter.noting_run hi cs), Action.bind_pure_run, hi]
    exact writes_insertAll entries _ _ w₁
  · simp [insertAll_cons_error (Inserter.noting_run hi cs), hi]

theorem map_length_cons (id : Identifier) (r : Except Thrown (List Identifier)) :
    (r.map (id :: ·)).map List.length = (r.map List.length).map (· + 1) := by
  cases r <;> rfl

theorem discreet_insertAll (h : Call.AnsweredAlike calls calls')
    (entries : List (String × Value)) :
    Discreet calls calls' (insertAll filename insert.noting entries)
      (insertAll filename insert'.noting entries) := by
  induction entries with
  | nil =>
    intro s cs w s' cs' v hs hcs _ _
    exact ⟨rfl, hs, hcs⟩
  | cons entry entries ih =>
    obtain ⟨label, record⟩ := entry
    intro s cs w s' cs' v hs hcs hp hp'
    obtain ⟨hblurred, hnext⟩ := h.next ((writes_insertAll_cons label record entries s cs w).trans hp)
      ((writes_insertAll_cons label record entries s' cs' v).trans hp') hcs rfl
    obtain ⟨id, id', hr, hr'⟩ | ⟨e, hr, hr'⟩ := Call.insert_alike hblurred
    · have hn := Inserter.noting_run (Prod.ext hr rfl : insert s.names record w = (.ok id, _)) cs
      have hn' :=
        Inserter.noting_run (Prod.ext hr' rfl : insert' s'.names record v = (.ok id', _)) cs'
      rw [insertAll_cons_ok hn, Action.bind_pure_run] at hp ⊢
      rw [insertAll_cons_ok hn', Action.bind_pure_run] at hp' ⊢
      rw [hr, hr'] at hnext
      have hrest := ih _ _ _ _ _ _ (hs.register filename label id id') hnext hp hp'
      refine ⟨?_, hrest.seeder, hrest.calls⟩
      rw [map_length_cons, map_length_cons, hrest.result]
    · have hn := Inserter.noting_run (Prod.ext hr rfl : insert s.names record w = (.error e, _)) cs
      have hn' :=
        Inserter.noting_run (Prod.ext hr' rfl : insert' s'.names record v = (.error e, _)) cs'
      rw [insertAll_cons_error hn, insertAll_cons_error hn']
      rw [hr, hr'] at hnext
      exact ⟨rfl, hs.note _, hnext⟩

/-- What a load writes down is the beginning of what its call writes down. -/
theorem writes_populate (source : Source σ) (decoder : Decoder σ) (s : Seeder) (cs : List Call)
    (w : σ) :
    (loadRecords source.noting filename decoder.noting (some s.baseDir) s.names (cs, w)).2.1 <+:
      (populate source.noting filename decoder.noting insert.noting (s, cs, w)).2.2.1 := by
  rcases Action.run_cases
    (loadRecords source.noting filename decoder.noting (some s.baseDir) s.names) (cs, w) with
    ⟨records, ⟨cs₁, w₁⟩, hl⟩ | ⟨e, ⟨cs₁, w₁⟩, hl⟩
  · rw [populate_loaded hl, hl]
    exact writes_insertAll records.entries _ cs₁ w₁
  · simp [populate_unloaded hl, hl]

variable (h : Call.AnsweredAlike calls calls')
  (hfiles : ∀ filename dir raw, Call.read filename dir (.ok raw) ∈ calls → WithoutReferences raw)

include h hfiles

theorem discreet_populate (source : Source σ) (source' : Source τ) (decoder : Decoder σ)
    (decoder' : Decoder τ) :
    Discreet calls calls' (populate source.noting filename decoder.noting insert.noting)
      (populate source'.noting filename decoder'.noting insert'.noting) := by
  intro s cs w s' cs' v hs hcs hp hp'
  have hwrites := (writes_populate source decoder s cs w).trans hp
  have hwrites' := (writes_populate source' decoder' s' cs' v).trans hp'
  obtain ⟨r, st, hl⟩ : ∃ r st, loadRecords source.noting filename decoder.noting
      (some s.baseDir) s.names (cs, w) = (r, st) := ⟨_, _, rfl⟩
  obtain ⟨r', st', hl'⟩ : ∃ r st, loadRecords source'.noting filename decoder'.noting
      (some s'.baseDir) s'.names (cs', v) = (r, st) := ⟨_, _, rfl⟩
  rw [hl] at hwrites
  rw [hl'] at hwrites'
  obtain ⟨rfl, hagree⟩ : r = r' ∧ Call.Agree st.1 st'.1 := by
    have hload := mirrored_loadRecords h source source' s.names s'.names hfiles filename decoder
      decoder' (some s.baseDir) (cs, w) (cs', v)
    rw [hs.baseDir] at hl'
    rw [Action.MirroredAt, hl, hl'] at hload
    exact hload hwrites hwrites' hcs
  cases r with
  | ok records =>
    rw [populate_loaded hl] at hp ⊢
    rw [populate_loaded hl'] at hp' ⊢
    exact discreet_insertAll h records.entries _ _ _ _ _ _ (hs.loaded filename) hagree hp hp'
  | error e =>
    rw [populate_unloaded hl, populate_unloaded hl']
    exact ⟨rfl, hs.loadFailed filename e, hagree⟩

theorem discreet_request (source : Source σ) (source' : Source τ) {q : Request σ}
    {q' : Request τ} (hq : Request.SameCall q q') :
    Discreet calls calls' (q.noting.perform source.noting) (q'.noting.perform source'.noting) := by
  cases hq with
  | setDir dir =>
    intro s cs w s' cs' v hs hcs _ _
    exact ⟨rfl, ⟨hs.filenames, rfl, hs.log, hs.labels⟩, hcs⟩
  | populate filename decoder decoder' insert insert' =>
    exact discreet_populate h hfiles source source' decoder decoder'
  | populateAsync filename decoder decoder' insert insert' =>
    rw [Request.noting, Request.noting, Request.perform, Request.perform, populateAsync_eq,
      populateAsync_eq, AsyncInserter.settled_noting, AsyncInserter.settled_noting]
    exact discreet_populate h hfiles source source' decoder decoder'

end discreet

/-! ### Sessions -/

def outcomes (source : Source σ) :
    List (Request σ) → Seeder × σ → List (Except Thrown (List Identifier))
  | [], _ => []
  | q :: requests, st => (q.perform source st).1 :: outcomes source requests (q.perform source st).2

theorem writes_performAll (source : Source σ) (requests : List (Request σ)) (s : Seeder)
    (cs : List Call) (w : σ) :
    cs <+: (performAll source.noting (requests.map Request.noting) (s, cs, w)).2.1 := by
  obtain ⟨s', w', new, added, -, hwatched, -, -⟩ := performAll_ends source requests s cs w
  rw [hwatched]
  exact List.prefix_append cs new

/-- Sessions that begin alike end alike. -/
theorem discreet_performAll {calls calls' : List Call} (h : Call.AnsweredAlike calls calls')
    (hfiles : ∀ filename dir raw, Call.read filename dir (.ok raw) ∈ calls →
      WithoutReferences raw) (source : Source σ) (source' : Source τ)
    {requests : List (Request σ)} {requests' : List (Request τ)}
    (hq : List.Forall₂ Request.SameCall requests requests') {s s' : Seeder} {cs cs' : List Call}
    {w : σ} {v : τ} (hs : s.SameButIds s') (hcs : Call.Agree cs cs')
    (hp : (performAll source.noting (requests.map Request.noting) (s, cs, w)).2.1 <+: calls)
    (hp' : (performAll source'.noting (requests'.map Request.noting) (s', cs', v)).2.1 <+: calls') :
    (performAll source.noting (requests.map Request.noting) (s, cs, w)).1.SameButIds
        (performAll source'.noting (requests'.map Request.noting) (s', cs', v)).1 ∧
      (outcomes source' requests' (s', v)).map (Except.map List.length) =
        (outcomes source requests (s, w)).map (Except.map List.length) := by
  induction hq generalizing s s' cs cs' w v with
  | nil => exact ⟨hs, rfl⟩
  | @cons q q' requests requests' head tail ih =>
    obtain ⟨r, s₁, w₁, new, -, ⟨hrun, hwatched⟩, -, -⟩ := request_ends source q s cs w
    obtain ⟨r', s₁', v₁, new', -, ⟨hrun', hwatched'⟩, -, -⟩ := request_ends source' q' s' cs' v
    have hstep : performAll source.noting ((q :: requests).map Request.noting) (s, cs, w) =
        performAll source.noting (requests.map Request.noting) (s₁, cs ++ new, w₁) := by
      rw [performAll, List.map_cons, List.foldl_cons, hwatched]
      rfl
    have hstep' : performAll source'.noting ((q' :: requests').map Request.noting) (s', cs', v) =
        performAll source'.noting (requests'.map Request.noting) (s₁', cs' ++ new', v₁) := by
      rw [performAll, List.map_cons, List.foldl_cons, hwatched']
      rfl
    rw [hstep] at hp ⊢
    rw [hstep'] at hp' ⊢
    have hend := discreet_request h hfiles source source' head s cs w s' cs' v hs hcs
    rw [hwatched, hwatched'] at hend
    have hend := hend ((writes_performAll source requests s₁ _ w₁).trans hp)
      ((writes_performAll source' requests' s₁' _ v₁).trans hp')
    obtain ⟨hseeders, houtcomes⟩ := ih hend.seeder hend.calls hp hp'
    refine ⟨hseeders, ?_⟩
    rw [outcomes, outcomes, hrun, hrun', List.map_cons, List.map_cons, houtcomes, hend.result]

structure Session (source : Source σ) (dir : String) (requests : List (Request σ)) (w : σ)
    (s : Seeder) (calls : List Call) (w' : σ) : Prop where
  run : performAll source requests ({ baseDir := dir }, w) = (s, w')
  watched : performAll source.noting (requests.map Request.noting) ({ baseDir := dir }, [], w) =
    (s, calls, w')

/-- In two sessions of the same calls the lines at the level of information are the same: each call
for a file begins with one that names the file and the directory. If the callers answer alike but
for identifiers and no file has a reference, all lines are the same, and the calls end with the same
errors. -/
theorem identifiers_unlogged (source : Source σ) (source' : Source τ)
    {requests : List (Request σ)} {requests' : List (Request τ)}
    (hq : List.Forall₂ Request.SameCall requests requests') (dir : String) (w : σ) (v : τ) :
    ∃ s calls w' s' calls' v',
      Session source dir requests w s calls w' ∧ Session source' dir requests' v s' calls' v' ∧
      s.infoLines = Request.announced dir requests ∧ s'.infoLines = s.infoLines ∧
      (Call.AnsweredAlike calls calls' →
        (∀ filename dir raw, Call.read filename dir (.ok raw) ∈ calls → WithoutReferences raw) →
        s'.log = s.log ∧
          (outcomes source' requests' ({ baseDir := dir }, v)).map (Except.map List.length) =
            (outcomes source requests ({ baseDir := dir }, w)).map (Except.map List.length)) := by
  obtain ⟨s, w', calls, -, hrun, hwatched, -, -⟩ :=
    performAll_ends source requests { baseDir := dir } [] w
  obtain ⟨s', v', calls', -, hrun', hwatched', -, -⟩ :=
    performAll_ends source' requests' { baseDir := dir } [] v
  rw [List.nil_append] at hwatched hwatched'
  have hlines : s.infoLines = Request.announced dir requests := by
    have h := performAll_infoLines source requests { baseDir := dir } w
    rwa [hrun] at h
  have hlines' : s'.infoLines = Request.announced dir requests' := by
    have h := performAll_infoLines source' requests' { baseDir := dir } v
    rwa [hrun'] at h
  refine ⟨s, calls, w', s', calls', v', ⟨hrun, hwatched⟩, ⟨hrun', hwatched'⟩, hlines, ?_, ?_⟩
  · rw [hlines, hlines', Request.announced_eq hq]
  · intro h hfiles
    have hbegin : SameButIds { baseDir := dir } { baseDir := dir } :=
      ⟨rfl, rfl, rfl, fun _ => rfl⟩
    have hnone : Call.Agree [] [] := rfl
    have hend := discreet_performAll h hfiles source source' hq hbegin hnone (w := w) (v := v)
    rw [hwatched, hwatched'] at hend
    obtain ⟨hseeders, houtcomes⟩ := hend (List.prefix_refl _) (List.prefix_refl _)
    exact ⟨hseeders.log, houtcomes⟩

def populating (id : Identifier) : Request Unit :=
  .populate "f" (.single "a") fun _ _ => pure id

def populatingCalls (id : Identifier) : List Call :=
  [.read "f" (some "") (.ok "x"), .decode "x" (.ok (.ofList [("a", .text "x")])),
    .insert (.text "x") (.ok id)]

theorem populating_watched (id : Identifier) :
    performAll (Source.ofText "x" : Source Unit).noting [(populating id).noting]
      ({ baseDir := "" }, [], ()) =
        (({ baseDir := "" } : Seeder).loaded "f" |>.register "f" "a" id, populatingCalls id, ()) := by
  have hc : (⟨[], ['x']⟩ : Split).Clear :=
    (Split.clear_iff _).2 (Tag.find?_eq_none_iff_free.1 (by decide))
  have hs (scope : Scope (List Call × Unit)) (w : List Call × Unit) :
      substitute scope "x" w = (.ok "x", w) := substitute_ok rfl hc .nil
  have hl : loadRecords (Source.ofText "x" : Source Unit).noting "f" (Decoder.single "a").noting
      (some "") ∅ ([], ()) = (.ok (.ofList [("a", .text "x")]), (populatingCalls id).take 2, ()) :=
    (loadRecords_of_resolved rfl (hs _ _)).trans (decodeText_ok rfl)
  have hp : (populating id).noting.perform (Source.ofText "x" : Source Unit).noting
      ({ baseDir := "" }, [], ()) = _ := populate_loaded hl
  have hi : insertAll "f" (Inserter.noting fun _ _ => pure id) [("a", .text "x")]
      (({ baseDir := "" } : Seeder).loaded "f", (populatingCalls id).take 2, ()) = _ :=
    insertAll_cons_ok rfl
  exact congrArg Prod.snd (hp.trans hi)

/-- A record gets one identifier in a session and another one in the next, and the log is the
same. -/
theorem populating_unlogged :
    List.Forall₂ Request.SameCall [populating (.text "1")] [populating (.text "2")] ∧
    ∃ s s' : Seeder, (∃ calls w', Session (.ofText "x") "" [populating (.text "1")] () s calls w') ∧
      (∃ calls w', Session (.ofText "x") "" [populating (.text "2")] () s' calls w') ∧
      s.lookup "a" = some "1" ∧ s'.lookup "a" = some "2" ∧ s'.log = s.log := by
  have hq : List.Forall₂ Request.SameCall [populating (.text "1")] [populating (.text "2")] :=
    .cons (.populate _ _ _ _ _) .nil
  obtain ⟨s, calls, w', s', calls', v', h, h', -, -, hlog⟩ :=
    identifiers_unlogged (.ofText "x") (.ofText "x") hq "" () ()
  have hcalls := (populating_watched (.text "1")).symm.trans h.watched
  have hcalls' := (populating_watched (.text "2")).symm.trans h'.watched
  rw [Prod.mk.injEq, Prod.mk.injEq] at hcalls hcalls'
  obtain ⟨hs, rfl, -⟩ := hcalls
  obtain ⟨hs', rfl, -⟩ := hcalls'
  have hagree : Call.Agree (populatingCalls (.text "1")) (populatingCalls (.text "2")) := rfl
  refine ⟨hq, s, s', ⟨_, _, h⟩, ⟨_, _, h'⟩, ?_, ?_, ?_⟩
  · rw [← hs]
    rfl
  · rw [← hs']
    rfl
  · refine (hlog hagree.answeredAlike fun filename dir raw hmem => ?_).1
    obtain ⟨-, -, rfl⟩ : "f" = filename ∧ some "" = dir ∧ "x" = raw := by
      simpa [populatingCalls, eq_comm] using hmem
    rw [withoutReferences_iff]
    decide +kernel

end Seeder

end Seedbed
