import Mathlib.Data.Finset.Card
import Seedbed.Proofs.Registry
import Seedbed.Proofs.Seeder.Lines
import Seedbed.Proofs.Seeder.Session

/-! The log of a session, said of how its calls go and of the labels that were inserted before. A
label that is inserted again has a line of its own, also where the earlier insert was for another
file or for one that failed later. So the lines tell how many labels are registered: as many as
there are inserts that did not overwrite another one. -/

namespace Seedbed

namespace Log.Line

def tells (message : String) (line : Log.Line) : Bool := line.message == some message

end Log.Line

theorem Log.Logger.isSome_write {logger : Log.Logger} {line : Log.Line}
    (hlevel : logger.level = .debug) (h : line.level ∈ [Log.Level.debug, .info, .error]) :
    (logger.write line).isSome = true := by
  have hpasses : ¬(line.level = .silent ∨ line.level.rank < logger.level.rank) := by
    rw [hlevel]
    revert h
    cases line.level <;> decide
  rw [write, if_neg hpasses]
  rfl

namespace Seeder

variable {σ : Type}

/-! ### What the log tells -/

/-- The lines of a call and the labels of its inserts that answered, after inserts under the
earlier labels. -/
inductive CallLines (source : Source σ) (filename : String) (decoder : Decoder σ)
    (insert : Inserter σ) (s : Seeder) (w : σ) (earlier : List String) :
    List String → List Log.Line → Prop
  | unloaded {e : Thrown} {w' : σ}
      (fails : LoadFails source filename decoder (some s.baseDir) s.names w w')
      (load : loadRecords source filename decoder (some s.baseDir) s.names w = (.error e, w')) :
      CallLines source filename decoder insert s w earlier []
        [populatingLine filename s.baseDir, loadFailedLine filename e]
  | stopped {records : Records} {done : List (String × Value)} {label : String} {record : Value}
      {ids : List Identifier} {e : Thrown} {w₁ : σ} {st : Registry × σ}
      (yields : LoadYields source filename decoder (some s.baseDir) s.names w records w₁)
      (fails : Action.FailsAt (registering insert) records.entries (s.names, w₁) done
        (label, record) ids e st) :
      CallLines source filename decoder insert s w earlier (done.map Prod.fst)
        (populatingLine filename s.baseDir ::
          (insertLines filename earlier (done.map Prod.fst) ++ [insertFailedLine filename label e]))
  | finished {records : Records} {ids : List Identifier} {w₁ : σ} {st : Registry × σ}
      (yields : LoadYields source filename decoder (some s.baseDir) s.names w records w₁)
      (each : Action.Each (registering insert) records.entries (s.names, w₁) ids st) :
      CallLines source filename decoder insert s w earlier records.keys
        (populatingLine filename s.baseDir :: insertLines filename earlier records.keys)

inductive SessionLines (source : Source σ) :
    List (Request σ) → Seeder → σ → List String → List String → List Log.Line → Prop
  | nil {s : Seeder} {w : σ} {earlier : List String} : SessionLines source [] s w earlier [] []
  | setDir {dir : String} {requests : List (Request σ)} {s : Seeder} {w : σ}
      {earlier later : List String} {lines : List Log.Line}
      (rest : SessionLines source requests (s.setDir dir) w earlier later lines) :
      SessionLines source (.setDir dir :: requests) s w earlier later lines
  | populate {filename : String} {decoder : Decoder σ} {insert : Inserter σ}
      {requests : List (Request σ)} {s s₁ : Seeder} {w w₁ : σ} {earlier labels later : List String}
      {lines more : List Log.Line}
      (call : CallLines source filename decoder insert s w earlier labels lines)
      (leaves : (Seeder.populate source filename decoder insert (s, w)).2 = (s₁, w₁))
      (rest : SessionLines source requests s₁ w₁ (earlier ++ labels) later more) :
      SessionLines source (.populate filename decoder insert :: requests) s w earlier
        (labels ++ later) (lines ++ more)
  | populateAsync {filename : String} {decoder : Decoder σ} {insert : AsyncInserter σ}
      {requests : List (Request σ)} {s s₁ : Seeder} {w w₁ : σ} {earlier labels later : List String}
      {lines more : List Log.Line}
      (call : CallLines source filename decoder insert.settled s w earlier labels lines)
      (leaves : (Seeder.populateAsync source filename decoder insert (s, w)).2 = (s₁, w₁))
      (rest : SessionLines source requests s₁ w₁ (earlier ++ labels) later more) :
      SessionLines source (.populateAsync filename decoder insert :: requests) s w earlier
        (labels ++ later) (lines ++ more)

/-! ### One call -/

def Registered (s : Seeder) (earlier : List String) : Prop :=
  ∀ label, s.names.has label = true ↔ label ∈ earlier

section call

variable {source : Source σ} {filename : String} {decoder : Decoder σ} {insert : Inserter σ}
  {s s' : Seeder} {w w' : σ} {r : Except Thrown (List Identifier)} {new : List Call}
  {earlier : List String}

theorem Registered.registerAll (h : s.Registered earlier) (filename : String)
    (pairs : List (String × Identifier)) :
    ((s.loaded filename).registerAll filename pairs).Registered
      (earlier ++ pairs.map Prod.fst) := by
  intro label
  rw [(registerAll_kept filename _ pairs).1, Registry.has_registered, List.mem_append]
  exact or_congr_left (h label)

theorem Ending.callLines (h : Ending source filename decoder insert s w r s' new w')
    (hs : s.Registered earlier) : ∃ labels lines,
      CallLines source filename decoder insert s w earlier labels lines ∧
      s'.log = s.log ++ lines ∧ s'.Registered (earlier ++ labels) := by
  have hlog (pairs : List (String × Identifier)) :
      ((s.loaded filename).registerAll filename pairs).log = s.log ++
        (populatingLine filename s.baseDir ::
          insertLines filename earlier (pairs.map Prod.fst)) := by
    rw [loaded_registerAll_log, registerLines_eq hs]
    rfl
  have hlabels {entries : List (String × Value)} {ids : List Identifier}
      (hl : ids.length = entries.length) :
      ((entries.map Prod.fst).zip ids).map Prod.fst = entries.map Prod.fst :=
    List.map_fst_zip (by rw [List.length_map, hl])
  cases h with
  | unloaded fails load asked =>
    refine ⟨[], _, .unloaded fails load, List.append_assoc _ _ _, ?_⟩
    rw [List.append_nil]
    exact hs
  | @stopped records _ done label record ids e names w₁ _ yields asked fails =>
    obtain ⟨-, w₂, hdone, -⟩ := fails.split
    have hkeys := hlabels hdone.length
    refine ⟨_, _, .stopped yields fails, ?_, ?_⟩
    · rw [noteFailure, note, hlog, hkeys, List.append_assoc]
      rfl
    · have hregistered := hs.registerAll filename ((done.map Prod.fst).zip ids)
      rw [hkeys] at hregistered
      exact hregistered
  | @finished records _ ids names w₁ _ yields asked each =>
    have hkeys := hlabels each.length
    refine ⟨_, _, .finished yields each, ?_, ?_⟩
    · rw [hlog, hkeys]
      rfl
    · have hregistered := hs.registerAll filename ((records.entries.map Prod.fst).zip ids)
      rw [hkeys] at hregistered
      exact hregistered

/-- A call adds these lines whatever happens in it, and the labels of its inserts are registered. -/
theorem populate_callLines (source : Source σ) (filename : String) (decoder : Decoder σ)
    (insert : Inserter σ) (w : σ) (hs : s.Registered earlier) : ∃ s' w' labels lines,
      (populate source filename decoder insert (s, w)).2 = (s', w') ∧
      CallLines source filename decoder insert s w earlier labels lines ∧
      s'.log = s.log ++ lines ∧ s'.Registered (earlier ++ labels) := by
  obtain ⟨r, s', new, w', ⟨hrun, -⟩, hending⟩ :=
    exists_ending source filename decoder insert s [] w
  obtain ⟨labels, lines, hcall, hlog, hregistered⟩ := hending.callLines hs
  exact ⟨s', w', labels, lines, congrArg Prod.snd hrun, hcall, hlog, hregistered⟩

end call

/-! ### All calls -/

theorem performAll_sessionLines (source : Source σ) (requests : List (Request σ)) {s : Seeder}
    (w : σ) {earlier : List String} (hs : s.Registered earlier) : ∃ s' w' labels lines,
      performAll source requests (s, w) = (s', w') ∧
      SessionLines source requests s w earlier labels lines ∧
      s'.log = s.log ++ lines ∧ s'.Registered (earlier ++ labels) := by
  -- each call is made with the labels of all inserts before it, so the induction is for any labels
  induction requests generalizing s w earlier with
  | nil =>
    refine ⟨s, w, [], [], rfl, .nil, (List.append_nil _).symm, ?_⟩
    rwa [List.append_nil]
  | cons q requests ih =>
    cases q with
    | setDir dir =>
      have hdir : (s.setDir dir).Registered earlier := hs
      obtain ⟨s', w', later, lines, hrun, hrest, hlog, hregistered⟩ := ih w hdir
      exact ⟨s', w', later, lines, hrun, .setDir hrest, hlog, hregistered⟩
    | populate filename decoder insert =>
      obtain ⟨s₁, w₁, labels, lines, hleaves, hcall, hlog₁, hs₁⟩ :=
        populate_callLines source filename decoder insert w hs
      obtain ⟨s', w', later, more, hrun, hrest, hlog, hregistered⟩ := ih w₁ hs₁
      refine ⟨s', w', labels ++ later, lines ++ more, ?_, .populate hcall hleaves hrest, ?_, ?_⟩
      · rw [← hrun, ← hleaves]
        rfl
      · rw [hlog, hlog₁, List.append_assoc]
      · rwa [← List.append_assoc]
    | populateAsync filename decoder insert =>
      obtain ⟨s₁, w₁, labels, lines, hleaves, hcall, hlog₁, hs₁⟩ :=
        populate_callLines source filename decoder insert.settled w hs
      rw [← populateAsync_eq] at hleaves
      obtain ⟨s', w', later, more, hrun, hrest, hlog, hregistered⟩ := ih w₁ hs₁
      refine ⟨s', w', labels ++ later, lines ++ more, ?_,
        .populateAsync hcall hleaves hrest, ?_, ?_⟩
      · rw [← hrun, ← hleaves]
        rfl
      · rw [hlog, hlog₁, List.append_assoc]
      · rwa [← List.append_assoc]

/-! ### Lines are counted -/

/-- From the labels before to those after, the lines about inserts are as many as the labels that
are new and the lines about labels that are not. -/
def Balanced (earlier later : List String) (lines : List Log.Line) : Prop :=
  lines.countP (·.tells "record inserted") + earlier.toFinset.card =
    lines.countP (·.tells "overwriting previously registered label") + later.toFinset.card

theorem Balanced.append {a b c : List String} {lines more : List Log.Line}
    (h : Balanced a b lines) (h' : Balanced b c more) : Balanced a c (lines ++ more) := by
  unfold Balanced at *
  rw [List.countP_append, List.countP_append]
  omega

theorem balanced_insert (filename : String) (earlier : List String) (label : String) :
    Balanced earlier (earlier ++ [label])
      ((if label ∈ earlier then [overwritingLine filename label] else []) ++
        [insertedLine filename label]) := by
  have hlabels : (earlier ++ [label]).toFinset = insert label earlier.toFinset := by
    ext l
    simp
  rw [Balanced, hlabels]
  by_cases h : label ∈ earlier
  · rw [if_pos h, Finset.insert_eq_of_mem (List.mem_toFinset.2 h)]
    rfl
  · rw [if_neg h, Finset.card_insert_of_notMem (mt List.mem_toFinset.1 h)]
    exact (Nat.add_comm 1 _).trans (Nat.zero_add _).symm

theorem balanced_insertLines (filename : String) (earlier labels : List String) :
    Balanced earlier (earlier ++ labels) (insertLines filename earlier labels) := by
  induction labels generalizing earlier with
  | nil =>
    rw [List.append_nil]
    rfl
  | cons label labels ih =>
    have hrest := (balanced_insert filename earlier label).append (ih (earlier ++ [label]))
    rwa [List.append_assoc, List.append_assoc] at hrest

section counted

variable {source : Source σ} {filename : String} {decoder : Decoder σ} {insert : Inserter σ}
  {requests : List (Request σ)} {s : Seeder} {w : σ} {earlier labels : List String}
  {lines : List Log.Line}

theorem CallLines.balanced (h : CallLines source filename decoder insert s w earlier labels lines) :
    Balanced earlier (earlier ++ labels) lines := by
  have hpopulating : Balanced earlier earlier [populatingLine filename s.baseDir] := rfl
  cases h with
  | unloaded fails load =>
    rw [List.append_nil]
    rfl
  | @stopped records done label record ids e w₁ st yields fails =>
    have hfailed : Balanced (earlier ++ done.map Prod.fst) (earlier ++ done.map Prod.fst)
        [insertFailedLine filename label e] := rfl
    exact hpopulating.append ((balanced_insertLines filename earlier _).append hfailed)
  | finished yields each => exact hpopulating.append (balanced_insertLines filename earlier _)

theorem SessionLines.balanced (h : SessionLines source requests s w earlier labels lines) :
    Balanced earlier (earlier ++ labels) lines := by
  induction h with
  | nil =>
    rw [List.append_nil]
    rfl
  | setDir rest ih => exact ih
  | populate call leaves rest ih =>
    rw [← List.append_assoc]
    exact call.balanced.append ih
  | populateAsync call leaves rest ih =>
    rw [← List.append_assoc]
    exact call.balanced.append ih

/-! ### Lines are written -/

theorem CallLines.level (h : CallLines source filename decoder insert s w earlier labels lines) :
    ∀ line ∈ lines, line.level ∈ [Log.Level.debug, .info, .error] := by
  have hfirst : (populatingLine filename s.baseDir).level ∈ [Log.Level.debug, .info, .error] := by
    simp [populatingLine, line]
  have hinserts (labels : List String) : ∀ line ∈ insertLines filename earlier labels,
      line.level ∈ [Log.Level.debug, .info, .error] := by
    intro line hline
    rw [level_of_mem_insertLines hline]
    decide
  cases h with
  | unloaded fails load =>
    refine List.forall_mem_cons.2 ⟨hfirst, List.forall_mem_singleton.2 ?_⟩
    simp [loadFailedLine, line]
  | stopped yields fails =>
    refine List.forall_mem_cons.2 ⟨hfirst, List.forall_mem_append.2 ⟨hinserts _,
      List.forall_mem_singleton.2 ?_⟩⟩
    simp [insertFailedLine, line]
  | finished yields each => exact List.forall_mem_cons.2 ⟨hfirst, hinserts _⟩

theorem SessionLines.level (h : SessionLines source requests s w earlier labels lines) :
    ∀ line ∈ lines, line.level ∈ [Log.Level.debug, .info, .error] := by
  induction h with
  | nil => exact fun _ hline => absurd hline List.not_mem_nil
  | setDir rest ih => exact ih
  | populate call leaves rest ih => exact List.forall_mem_append.2 ⟨call.level, ih⟩
  | populateAsync call leaves rest ih => exact List.forall_mem_append.2 ⟨call.level, ih⟩

end counted

/-- After any session from a new seeder its log is made of the lines of its calls, in their order,
and a logger at the level `debug` writes each of them. A label is registered just if an insert under
it answered. The labels that are registered are as many as the lines about inserts, less those about
labels that were there before. -/
theorem session_logged (source : Source σ) (dir : String) (requests : List (Request σ)) (w : σ) :
    ∃ s w' labels,
      performAll source requests ({ baseDir := dir }, w) = (s, w') ∧
      SessionLines source requests { baseDir := dir } w [] labels s.log ∧
      (∀ logger : Log.Logger, logger.level = .debug →
        ∀ line ∈ s.log, (logger.write line).isSome = true) ∧
      (∀ label, s.names.has label = true ↔ label ∈ labels) ∧
      s.names.size = labels.toFinset.card ∧
      s.log.countP (·.tells "record inserted") =
        s.log.countP (·.tells "overwriting previously registered label") + s.names.size := by
  have hnew : Registered { baseDir := dir } [] := fun label =>
    ⟨fun h => absurd h Bool.false_ne_true, fun h => absurd h List.not_mem_nil⟩
  obtain ⟨s, w', labels, lines, hrun, hlines, hlog, hregistered⟩ :=
    performAll_sessionLines source requests w hnew
  obtain rfl : s.log = lines := hlog
  have hsize : s.names.size = labels.toFinset.card := Registry.size_eq_card hregistered
  refine ⟨s, w', labels, hrun, hlines, fun logger hlevel line hline => ?_, hregistered, hsize, ?_⟩
  · exact Log.Logger.isSome_write hlevel (hlines.level line hline)
  · rw [hsize]
    exact hlines.balanced

/-- A label of two files is told of once more, and three labels are registered. -/
example :
    let source : Source Unit := ⟨fun _ _ => pure "", fun _ => pure none⟩
    let decoder (labels : List String) : Decoder Unit :=
      fun _ => pure (.ofList (labels.map fun label => (label, .null)))
    let insert : Inserter Unit := fun _ _ => pure (.text "1")
    let s := (performAll source [.populate "f" (decoder ["a", "b"]) insert,
      .populate "g" (decoder ["b", "c"]) insert] ({}, ())).1
    s.log.map (·.message.getD "") = ["populating fixture file", "record inserted",
      "record inserted", "populating fixture file", "overwriting previously registered label",
      "record inserted", "record inserted"] ∧ s.names.size = 3 := by
  decide +kernel

end Seeder

end Seedbed
