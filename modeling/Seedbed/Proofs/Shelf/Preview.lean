import Seedbed.Proofs.Alike
import Seedbed.Proofs.Seeder.Lines
import Seedbed.Proofs.Shelf

/-! A shelf as a preview of a seeder. Loaded with the registry of a seeder from the seeder's
directory, a new shelf holds the records that the seeder would insert, in the order in which it
would insert them, and where the one load fails the other one does with the same error. -/

namespace Seedbed

variable {σ : Type}

def Inserter.Succeeds (insert : Inserter σ) : Prop :=
  ∀ names record w, ∃ id w', insert names record w = (.ok id, w')

theorem Inserter.Succeeds.not_failsAt {insert : Inserter σ} (h : insert.Succeeds)
    {entries done : List (String × Value)} {entry : String × Value} {ids : List Identifier}
    {e : Thrown} {st st' : Registry × σ} :
    ¬ Action.FailsAt (Seeder.registering insert) entries st done entry ids e st' := by
  intro hf
  obtain ⟨-, ⟨names, w⟩, -, he⟩ := hf.split
  obtain ⟨w', hi, -⟩ := Seeder.exists_of_registering_error he
  obtain ⟨id, w'', hok⟩ := h names entry.2 w
  cases hi.symm.trans hok

namespace Shelf

/-- A shelf for a file of the seeder's directory. -/
def planFor (s : Seeder) (source : Source σ) (filename : String) (decoder : Decoder σ) : Plan σ where
  filename := filename
  baseDir := some s.baseDir
  decoder := decoder
  source := source

/-- A new shelf that is loaded from the state `w` foretells a call of the seeder on the state `v`.
-/
structure Previews (source : Source σ) (filename : String) (decoder : Decoder σ) (s : Seeder)
    (w v : σ) : Prop where
  /-- The load fails just if the call fails before any insert, with the same error. -/
  fails : ∀ (insert : Inserter σ) (e : Thrown),
    (∃ shelf w', Shelf.load (planFor s source filename decoder) s.names ({}, w) =
      (.error e, (shelf, w'))) ↔
    ∃ s' calls v', Seeder.Ends (Seeder.populate source filename decoder insert)
        (Seeder.populate source.noting filename decoder.noting insert.noting) s v []
        (.error e) s' calls v' ∧
      calls.filterMap Call.record? = []
  /-- The shelf holds just these records under these labels if the call, where no insert fails,
  inserts just these records and registers them under these labels. -/
  succeeds : ∀ (insert : Inserter σ), insert.Succeeds → ∀ entries : List (String × Value),
    (∃ shelf w' m, Shelf.load (planFor s source filename decoder) s.names ({}, w) =
      (.ok (), (shelf, w')) ∧
      shelf.getAll (planFor s source filename decoder) = .ok m ∧ m.entries = entries) ↔
    ∃ ids s' calls v', Seeder.Ends (Seeder.populate source filename decoder insert)
        (Seeder.populate source.noting filename decoder.noting insert.noting) s v []
        (.ok ids) s' calls v' ∧
      calls.filterMap Call.record? = entries.map Prod.snd ∧ ids.length = entries.length ∧
      s' = (s.loaded filename).registerAll filename ((entries.map Prod.fst).zip ids)

section previews

variable {source : Source σ} {filename : String} {decoder : Decoder σ} {s : Seeder} {w v : σ}
  {insert : Inserter σ} {e : Thrown} {entries : List (String × Value)}

/-! ### The shelf -/

theorem load_error_iff :
    (∃ shelf w', Shelf.load (planFor s source filename decoder) s.names ({}, w) =
      (.error e, (shelf, w'))) ↔
    (loadRecords source filename decoder (some s.baseDir) s.names w).1 = .error e := by
  rcases Action.run_cases (loadRecords source filename decoder (some s.baseDir) s.names) w with
    ⟨m, w₁, hl⟩ | ⟨e', w₁, hl⟩
  · have hload := load_ok (planFor s source filename decoder) (s := {}) rfl hl
    rw [hl]
    constructor
    · rintro ⟨shelf, w', h⟩
      cases hload.symm.trans h
    · intro h
      cases h
  · have hload := load_error (planFor s source filename decoder) (s := {}) rfl hl
    rw [hl]
    constructor
    · rintro ⟨shelf, w', h⟩
      cases hload.symm.trans h
      rfl
    · intro h
      cases h
      exact ⟨_, _, hload⟩

theorem load_ok_iff :
    (∃ shelf w' m, Shelf.load (planFor s source filename decoder) s.names ({}, w) =
      (.ok (), (shelf, w')) ∧
      shelf.getAll (planFor s source filename decoder) = .ok m ∧ m.entries = entries) ↔
    ∃ m, (loadRecords source filename decoder (some s.baseDir) s.names w).1 = .ok m ∧
      m.entries = entries := by
  rcases Action.run_cases (loadRecords source filename decoder (some s.baseDir) s.names) w with
    ⟨m, w₁, hl⟩ | ⟨e, w₁, hl⟩
  · have hload := load_ok (planFor s source filename decoder) (s := {}) rfl hl
    rw [hl]
    constructor
    · rintro ⟨shelf, w', m', h, hall, hm⟩
      cases hload.symm.trans h
      cases hall
      exact ⟨m, rfl, hm⟩
    · rintro ⟨m', hm', hm⟩
      cases hm'
      exact ⟨_, _, m, hload, rfl, hm⟩
  · have hload := load_error (planFor s source filename decoder) (s := {}) rfl hl
    rw [hl]
    constructor
    · rintro ⟨shelf, w', m', h, -⟩
      cases hload.symm.trans h
    · rintro ⟨m', hm', -⟩
      cases hm'

/-! ### The seeder -/

theorem populate_error_iff :
    (∃ s' calls v', Seeder.Ends (Seeder.populate source filename decoder insert)
        (Seeder.populate source.noting filename decoder.noting insert.noting) s v []
        (.error e) s' calls v' ∧
      calls.filterMap Call.record? = []) ↔
    (loadRecords source filename decoder (some s.baseDir) s.names v).1 = .error e := by
  obtain ⟨r, s₁, new, v₁, hends, hending⟩ :=
    Seeder.exists_ending source filename decoder insert s [] v
  constructor
  · rintro ⟨s', calls, v', h, hnone⟩
    obtain ⟨rfl, rfl, rfl, rfl⟩ := hends.unique h
    cases hending with
    | unloaded fails load asked => rw [load]
    | stopped yields asked fails =>
      rw [asked.record?_append, List.filterMap_append] at hnone
      simp [Call.record?] at hnone
  · intro h
    cases hending with
    | unloaded fails load asked =>
      rw [load] at h
      cases h
      exact ⟨_, _, _, hends, asked.record?⟩
    | stopped yields asked fails =>
      rw [yields.run] at h
      cases h
    | finished yields asked each =>
      rw [yields.run] at h
      cases h

theorem populate_ok_iff (hinsert : insert.Succeeds) :
    (∃ ids s' calls v', Seeder.Ends (Seeder.populate source filename decoder insert)
        (Seeder.populate source.noting filename decoder.noting insert.noting) s v []
        (.ok ids) s' calls v' ∧
      calls.filterMap Call.record? = entries.map Prod.snd ∧ ids.length = entries.length ∧
      s' = (s.loaded filename).registerAll filename ((entries.map Prod.fst).zip ids)) ↔
    ∃ m, (loadRecords source filename decoder (some s.baseDir) s.names v).1 = .ok m ∧
      m.entries = entries := by
  obtain ⟨r, s₁, new, v₁, hends, hending⟩ :=
    Seeder.exists_ending source filename decoder insert s [] v
  constructor
  · rintro ⟨ids, s', calls, v', h, hrecords, hlength, hs'⟩
    obtain ⟨rfl, rfl, rfl, rfl⟩ := hends.unique h
    cases hending with
    | @finished records new ids names v₁ v₂ yields asked each =>
      rw [asked.record?_append, Seeder.insertCalls_record? each.length] at hrecords
      have hlabels := Seeder.labels_of_registerAll hs'
      rw [List.map_fst_zip (by simp [each.length]), List.map_fst_zip (by simp [hlength])]
        at hlabels
      rw [yields.run]
      exact ⟨records, rfl, (List.zip_of_prod hlabels hrecords).trans
        (List.zip_of_prod rfl rfl).symm⟩
  · rintro ⟨m, hm, rfl⟩
    cases hending with
    | unloaded fails load asked =>
      rw [load] at hm
      cases hm
    | stopped yields asked fails => exact absurd fails hinsert.not_failsAt
    | finished yields asked each =>
      rw [yields.run] at hm
      cases hm
      refine ⟨_, _, _, _, hends, ?_, each.length, rfl⟩
      rw [asked.record?_append, Seeder.insertCalls_record? each.length]

/-- A shelf and a seeder load a file alike, whatever the file, the registry and the stage that
fails, if the reader, the environment and the decoder answer by their arguments alone. -/
theorem load_previews_populate (hsource : source.Steady) (hdecoder : decoder.Steady)
    (filename : String) (s : Seeder) (w v : σ) : Previews source filename decoder s w v := by
  have hsame := steady_loadRecords hsource filename hdecoder (some s.baseDir) s.names w v
  constructor
  · intro insert e
    rw [load_error_iff, populate_error_iff, hsame]
  · intro insert hinsert entries
    rw [load_ok_iff, populate_ok_iff hinsert, hsame]

end previews

/-- A file with a reference is seen on the shelf as it is inserted. -/
theorem reference_previewed :
    (Source.ofText "$\x7b\x7b REF(c) \x7d\x7d" : Source Unit).Steady ∧
    (Decoder.single "a" : Decoder Unit).Steady ∧
    Previews (Source.ofText "$\x7b\x7b REF(c) \x7d\x7d") "f" (Decoder.single "a")
      { names := .ofEntries [("c", "7")] } () () := by
  have hsource : (Source.ofText "$\x7b\x7b REF(c) \x7d\x7d" : Source Unit).Steady :=
    ⟨fun _ _ _ _ => rfl, fun _ _ _ => rfl⟩
  have hdecoder : (Decoder.single "a" : Decoder Unit).Steady := fun _ _ _ => rfl
  exact ⟨hsource, hdecoder, load_previews_populate hsource hdecoder _ _ _ _⟩

end Shelf

end Seedbed
