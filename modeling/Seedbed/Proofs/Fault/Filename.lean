import Seedbed.Proofs.Overlap.Runs
import Seedbed.Proofs.Shelf

/-! Errors that name their file. What leaves a load, a shelf or a seeder is a fault that knows the
file, at whatever stage it arose and whatever the caller's functions throw. There is one exception:
an error that the environment throws and that is no fault leaves as it is. -/

namespace Seedbed

variable {σ : Type} {source : Source σ} {filename : String} {decoder : Decoder σ}
  {dir : Option String} {names : Registry} {e : Thrown} {w w₁ w₂ w₃ w' : σ}

/-! ### Faults with a file -/

/-- The error is a fault whose context names a file. -/
def Thrown.namesFile : Thrown → Bool
  | .fault f => f.context.filename.isSome
  | _ => false

theorem Thrown.namesFile_of_foreign (h : e.isFault = false) : e.namesFile = false := by
  cases e with
  | fault f => cases h
  | failure e => rfl
  | value v => rfl

theorem namesFile_withContext (f : Fault) (filename : String) :
    (Thrown.fault (f.withContext (Load.inFile filename))).namesFile = true := by
  rw [Thrown.namesFile, FaultWith.withContext_context, Fault.Context.orElse]
  cases f.context.filename <;> rfl

theorem namesFile_withCause {f : Fault} (h : f.context.filename.isSome = true) (e : Thrown) :
    (Thrown.fault (f.withCause e)).namesFile = true := by
  rwa [Thrown.namesFile, Fault.withCause_context]

/-- The errors of the reader and of the decoder name the file, whatever they were. -/
theorem namesFile_leaving {f : Fault} (h : f.context.filename.isSome = true) (filename : String)
    (e : Thrown) : (Load.leaving filename f e).namesFile = true := by
  cases e with
  | fault f' => exact namesFile_withContext f' filename
  | failure e' => exact namesFile_withCause h (.failure e')
  | value v => exact namesFile_withCause h (.value v)

theorem leavingTags_of_foreign (h : e.isFault = false) : Load.leavingTags filename e = e := by
  cases e with
  | fault f => cases h
  | failure e => rfl
  | value v => rfl

theorem namesFile_insertFailed (filename label : String) (e : Thrown) :
    (Thrown.fault (Fault.insertFailed filename label e)).namesFile = true :=
  namesFile_withCause rfl e

/-! ### Loads -/

/-- A tag throws a fault, unless it names a variable and the environment throws. -/
theorem Tag.isFault_of_resolve {scope : Scope σ} {tag : Tag}
    (h : tag.resolve scope w = (.error e, w')) :
    e.isFault = true ∨ tag.directive = "ENV" ∧ scope.environment tag.key w = (.error e, w') := by
  by_cases he : tag.directive = "ENV"
  · rw [resolve_env _ he] at h
    rcases Action.run_cases (scope.environment tag.key) w with ⟨value, w₁, ha⟩ | ⟨e', w₁, ha⟩
    · rw [Action.bind_ok ha] at h
      cases hv : value <|> tag.fallback with
      | none =>
        rw [hv] at h
        cases h
        exact .inl rfl
      | some text =>
        rw [hv] at h
        cases h
    · rw [Action.bind_error ha] at h
      cases h
      exact .inr ⟨he, ha⟩
  · by_cases hr : tag.directive = "REF"
    · rw [resolve_ref _ hr] at h
      cases hl : scope.names.lookup tag.key with
      | none =>
        rw [hl] at h
        cases h
        exact .inl rfl
      | some text =>
        rw [hl] at h
        cases h
    · rw [resolve_other _ he hr] at h
      cases h
      exact .inl rfl

/-- Where the replacing of tags throws something else than a fault, the environment threw it at the
first tag that has no text. -/
theorem exists_tag_of_foreign {scope : Scope σ} {raw : String}
    (h : substitute scope raw w = (.error e, w')) (hf : e.isFault = false) :
    ∃ (t : Split) (done rest : List Tag) (tag : Tag) (texts : List String) (w₁ : σ),
      t.text = raw.toList ∧ t.Clear ∧ t.tags = done ++ tag :: rest ∧
      Action.Each (Tag.resolve scope) done w texts w₁ ∧ tag.directive = "ENV" ∧
      scope.environment tag.key w₁ = (.error e, w') := by
  obtain ⟨t, ht, hall⟩ := Split.exists_allFree raw.toList
  have hc : t.Clear := (Split.clear_iff t).2 hall
  rcases Action.each_or_fails (Tag.resolve scope) t.tags w with
    ⟨texts, w₁, he⟩ | ⟨done, tag, texts, e', w₁, hfails⟩
  · cases (substitute_ok ht hc he).symm.trans h
  · cases (substitute_error ht hc hfails).symm.trans h
    obtain ⟨⟨rest, hsplit⟩, w₂, hdone, hresolve⟩ := hfails.split
    rcases Tag.isFault_of_resolve hresolve with hfault | ⟨hdir, hthrew⟩
    · rw [hf] at hfault
      cases hfault
    · exact ⟨t, done, rest, tag, texts, w₂, ht, hc, hsplit, hdone, hdir, hthrew⟩

/-- The file is read, the tags before one of its variables have their texts, and for that variable
the environment throws an error that is no fault. -/
inductive EnvironmentThrows (source : Source σ) (filename : String) (dir : Option String)
    (names : Registry) (w : σ) (e : Thrown) : σ → Prop
  | asked {raw : String} {t : Split} {done rest : List Tag} {tag : Tag} {texts : List String}
      {w₁ w₂ w₃ : σ} (read : source.reader filename dir w = (.ok raw, w₁))
      (cut : t.text = raw.toList) (clear : t.Clear) (split : t.tags = done ++ tag :: rest)
      (resolved : Action.Each (Tag.resolve ⟨names, source.environment⟩) done w₁ texts w₂)
      (directive : tag.directive = "ENV")
      (threw : source.environment tag.key w₂ = (.error e, w₃)) (foreign : e.isFault = false) :
      EnvironmentThrows source filename dir names w e w₃

theorem EnvironmentThrows.foreign (h : EnvironmentThrows source filename dir names w e w') :
    e.isFault = false := by
  cases h with
  | asked read cut clear split resolved directive threw foreign => exact foreign

/-- Such an error leaves the load as it is. -/
theorem EnvironmentThrows.run (h : EnvironmentThrows source filename dir names w e w')
    (decoder : Decoder σ) : loadRecords source filename decoder dir names w = (.error e, w') := by
  cases h with
  | @asked raw t done rest tag texts w₁ w₂ w₃ read cut clear split resolved directive threw
      foreign =>
    have hresolve : tag.resolve ⟨names, source.environment⟩ w₂ = (.error e, w') := by
      rw [Tag.resolve_env _ directive]
      exact Action.bind_error threw
    rw [loadRecords_of_unresolved read (substitute_stopped cut clear split resolved hresolve),
      leavingTags_of_foreign foreign]

/-- A load throws an error that does not name the file just if the environment threw it. -/
theorem loadRecords_unnamed_iff (decoder : Decoder σ) :
    loadRecords source filename decoder dir names w = (.error e, w') ∧ e.namesFile = false ↔
      EnvironmentThrows source filename dir names w e w' := by
  refine ⟨?_, fun ht => ⟨ht.run decoder, Thrown.namesFile_of_foreign ht.foreign⟩⟩
  rintro ⟨h, hnone⟩
  rcases Action.run_cases (source.reader filename dir) w with ⟨raw, w₁, hr⟩ | ⟨e₀, w₁, hr⟩
  · rcases Action.run_cases (substitute ⟨names, source.environment⟩ raw) w₁ with
      ⟨text, w₂, hs⟩ | ⟨e₀, w₂, hs⟩
    · rw [loadRecords_of_resolved hr hs] at h
      rcases Action.run_cases (decoder text) w₂ with ⟨records, w₃, hd⟩ | ⟨e₀, w₃, hd⟩
      · cases (decodeText_ok hd).symm.trans h
      · cases (decodeText_error hd).symm.trans h
        rw [namesFile_leaving rfl] at hnone
        cases hnone
    · cases (loadRecords_of_unresolved hr hs).symm.trans h
      have hforeign : e₀.isFault = false := by
        cases e₀ with
        | fault f =>
          rw [Load.leavingTags, namesFile_withContext] at hnone
          cases hnone
        | failure e' => rfl
        | value v => rfl
      obtain ⟨t, done, rest, tag, texts, w₃, ht, hc, hsplit, hdone, hdir, hthrew⟩ :=
        exists_tag_of_foreign hs hforeign
      rw [leavingTags_of_foreign hforeign]
      exact .asked hr ht hc hsplit hdone hdir hthrew hforeign
  · cases (loadRecords_of_unread hr).symm.trans h
    rw [namesFile_leaving rfl] at hnone
    cases hnone

/-! ### Shelves, seeders and their runs -/

theorem namesFile_answerFrom {plan : Shelf.Plan σ} {m : Records} {q : Shelf.Request}
    (h : Shelf.answerFrom plan m q = .error e) : e.namesFile = true := by
  cases q with
  | load names =>
    cases h
    rfl
  | getAll => cases h
  | get label =>
    rw [Shelf.answerFrom] at h
    split at h
    · cases h
      rfl
    · cases h
      rfl
    · cases h

theorem shelf_unnamed_iff {plan : Shelf.Plan σ} {q : Shelf.Request} {s : Shelf} :
    (∃ s', q.perform plan (s, w) = (.error e, (s', w')) ∧ e.namesFile = false) ↔
      ∃ names, q = .load names ∧ s.records = none ∧
        EnvironmentThrows plan.source plan.filename plan.baseDir names w e w' := by
  constructor
  · rintro ⟨s', h, hnone⟩
    cases hs : s.records with
    | some m =>
      have hanswer : Shelf.answerFrom plan m q = .error e :=
        congrArg Prod.fst ((Shelf.perform_of_loaded plan hs q).symm.trans h)
      rw [namesFile_answerFrom hanswer] at hnone
      cases hnone
    | none =>
      by_cases hq : ∃ names, q = .load names
      · obtain ⟨names, rfl⟩ := hq
        rcases Action.run_cases
          (loadRecords plan.source plan.filename plan.decoder plan.baseDir names) w with
          ⟨m, w₁, hl⟩ | ⟨e₀, w₁, hl⟩
        · cases (Shelf.perform_load_ok plan hs hl).symm.trans h
        · cases (Shelf.perform_load_error plan hs hl).symm.trans h
          exact ⟨names, rfl, rfl, (loadRecords_unnamed_iff plan.decoder).1 ⟨hl, hnone⟩⟩
      · have hempty := Shelf.perform_of_empty plan (w := w) hs fun names hn => hq ⟨names, hn⟩
        cases hempty.symm.trans h
        cases hnone
  · rintro ⟨names, rfl, hs, ht⟩
    exact ⟨_, Shelf.perform_load_error plan hs (ht.run plan.decoder),
      Thrown.namesFile_of_foreign ht.foreign⟩

theorem request_unnamed_iff {q : Request σ} {s : Seeder} :
    (∃ s', q.perform source (s, w) = (.error e, (s', w')) ∧ e.namesFile = false) ↔
      ∃ filename decoder, q.file? = some (filename, decoder) ∧
        EnvironmentThrows source filename (some s.baseDir) s.names w e w' := by
  constructor
  · rintro ⟨s', h, hnone⟩
    cases hq : q.file? with
    | none =>
      cases q with
      | setDir dir => cases h
      | populate filename decoder insert => cases hq
      | populateAsync filename decoder insert => cases hq
    | some file =>
      obtain ⟨filename, decoder⟩ := file
      obtain ⟨insert, hp, -⟩ := Request.exists_inserter hq source
      obtain ⟨r, s₁, new, w₁, hends, hending⟩ :=
        Seeder.exists_ending source filename decoder insert s [] w
      rw [hp] at h
      cases hends.1.symm.trans h
      cases hending with
      | unloaded fails load asked =>
        exact ⟨filename, decoder, rfl, (loadRecords_unnamed_iff decoder).1 ⟨load, hnone⟩⟩
      | stopped yields asked fails =>
        rw [namesFile_insertFailed] at hnone
        cases hnone
  · rintro ⟨filename, decoder, hq, ht⟩
    obtain ⟨insert, hp, -⟩ := Request.exists_inserter hq source
    rw [hp]
    exact ⟨_, Seeder.populate_unloaded (ht.run decoder), Thrown.namesFile_of_foreign ht.foreign⟩

/-- A run among others fails like one alone. `st₀` is the state in which it began. -/
theorem run_unnamed_iff {st₀ st : Overlap.State σ} {i : Nat}
    (h : Overlap.Follows source st₀ filename decoder st i) :
    st.runs[i]? = some (.ended (.error e)) ∧ e.namesFile = false ↔
      ∃ w', EnvironmentThrows source filename (some st₀.seeder.baseDir) st₀.seeder.names
        st₀.world e w' := by
  obtain ⟨stage, hstage, hc⟩ := h
  generalize st.trace i = marks at hc
  constructor
  · rintro ⟨hr, hnone⟩
    cases hstage.symm.trans hr
    cases hc with
    | unloaded load => exact ⟨_, (loadRecords_unnamed_iff decoder).1 ⟨load, hnone⟩⟩
    | loaded load progress =>
      cases progress with
      | failed split length =>
        rw [namesFile_insertFailed] at hnone
        cases hnone
  · rintro ⟨w', ht⟩
    cases hc with
    | unloaded load =>
      cases load.symm.trans (ht.run decoder)
      exact ⟨hstage, Thrown.namesFile_of_foreign ht.foreign⟩
    | loaded load progress => cases load.symm.trans (ht.run decoder)

/-- Whatever the caller's functions do, an error that leaves a load, a shelf, a seeder or one of its
runs names the file, unless the environment threw it and it is no fault. That error leaves each of
them as it is. -/
theorem unnamed_iff_environment_throws (source : Source σ) (w : σ) (e : Thrown) :
    (∀ filename decoder dir names w',
      loadRecords source filename decoder dir names w = (.error e, w') ∧ e.namesFile = false ↔
        EnvironmentThrows source filename dir names w e w') ∧
    (∀ (plan : Shelf.Plan σ) (q : Shelf.Request) (s : Shelf) (w' : σ),
      (∃ s', q.perform plan (s, w) = (.error e, (s', w')) ∧ e.namesFile = false) ↔
        ∃ names, q = .load names ∧ s.records = none ∧
          EnvironmentThrows plan.source plan.filename plan.baseDir names w e w') ∧
    (∀ (q : Request σ) (s : Seeder) (w' : σ),
      (∃ s', q.perform source (s, w) = (.error e, (s', w')) ∧ e.namesFile = false) ↔
        ∃ filename decoder, q.file? = some (filename, decoder) ∧
          EnvironmentThrows source filename (some s.baseDir) s.names w e w') ∧
    ∀ before step after filename decoder (s : Seeder),
      Overlap.Step.file? step = some (filename, decoder) → ∃ st₀ i,
        Overlap.performAll source before (.fresh s w) = st₀ ∧ st₀.runs.length = i ∧
        ((Overlap.performAll source (before ++ step :: after) (.fresh s w)).runs[i]? =
            some (.ended (.error e)) ∧ e.namesFile = false ↔
          ∃ w', EnvironmentThrows source filename (some st₀.seeder.baseDir) st₀.seeder.names
            st₀.world e w') := by
  refine ⟨fun filename decoder dir names w' => loadRecords_unnamed_iff decoder,
    fun plan q s w' => shelf_unnamed_iff, fun q s w' => request_unnamed_iff, ?_⟩
  intro before step after filename decoder s hf
  have hsound : (Overlap.performAll source before (Overlap.State.fresh s w)).Sound :=
    Overlap.sound_performAll source before (Overlap.State.sound_fresh s w)
  have hfollows := Overlap.follows_performAll source hsound hf after
  rw [← Overlap.performAll_append] at hfollows
  exact ⟨_, _, rfl, rfl, run_unnamed_iff hfollows⟩

def Source.sealed : Source Unit where
  reader _ _ := return "$\x7b\x7b ENV(KEY) \x7d\x7d"
  environment _ := throw (.failure (.plain "sealed"))

/-- The load of that file throws an error that tells nothing of the file. -/
theorem sealed_variable_unnamed :
    loadRecords .sealed "a.yml" (fun _ => return ∅) none ∅ () =
      (.error (.failure (.plain "sealed")), ()) ∧
    Thrown.namesFile (.failure (.plain "sealed")) = false := by
  have hs : substitute ⟨∅, Source.sealed.environment⟩ "$\x7b\x7b ENV(KEY) \x7d\x7d" () =
      (.error (.failure (.plain "sealed")), ()) := by
    rw [substitute, Template.ofText, Template.cut]
    rfl
  have hr : Source.sealed.reader "a.yml" none () = (.ok "$\x7b\x7b ENV(KEY) \x7d\x7d", ()) := rfl
  exact ⟨loadRecords_of_unresolved hr hs, rfl⟩

end Seedbed
