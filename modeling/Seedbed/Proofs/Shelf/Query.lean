import Seedbed.Proofs.Schema.Present
import Seedbed.Proofs.Shelf

/-! Questions to a loaded shelf. A shelf takes an absent record for one that is not there, but no
YAML text and no schema makes a record absent. So a shelf that their decoders loaded finds a record
under a label just if its listing has one, whatever the record is. -/

namespace Seedbed

/-! ### One shelf -/

namespace Shelf

variable {σ : Type}

/-- The answers to questions by label and the listing say the same. -/
structure Consistent (plan : Plan σ) (s : Shelf) (m : Records) : Prop where
  listed : s.getAll plan = .ok m
  found : ∀ label v, s.get plan label = .ok v ↔ (label, v) ∈ m.entries
  missing : ∀ label f, s.get plan label = .error f ↔ (∀ v, (label, v) ∉ m.entries) ∧
    f = { code := .recordNotFound
          message := plan.filename ++ ": no record was found for the label `" ++ label ++ "`"
          context := { filename := some plan.filename, label := some label } }

section get

variable (plan : Plan σ) {s : Shelf} {m : Records} {label : String}

theorem getAll_of_records (h : s.records = some m) : s.getAll plan = .ok m := by
  rw [getAll, h]

theorem get_of_records (h : s.records = some m) (label : String) :
    s.get plan label = match m.get? label with
      | none | some .absent => .error (Fault.recordNotFound plan.filename label)
      | some v => .ok v := by
  rw [get, getAll_of_records plan h]
  rfl

theorem get_of_present (h : s.records = some m) {v : Value} (hv : m.get? label = some v)
    (hne : v ≠ .absent) : s.get plan label = .ok v := by
  rw [get_of_records plan h, hv]
  split
  · cases ‹_›
  · cases ‹_›
    exact absurd rfl hne
  · cases ‹_›
    rfl

theorem get_of_missing (h : s.records = some m) (hv : m.get? label = none) :
    s.get plan label = .error (Fault.recordNotFound plan.filename label) := by
  rw [get_of_records plan h, hv]

theorem consistent_of_present (h : s.records = some m) (hm : m.Present) : Consistent plan s m := by
  refine ⟨getAll_of_records plan h, fun label v => ?_, fun label f => ?_⟩
  · rw [Keyed.mem_entries_iff]
    cases hv : m.get? label with
    | none => simp [get_of_missing plan h hv]
    | some v' => simp [get_of_present plan h hv (hm _ (Keyed.mem_entries_iff.2 hv))]
  · simp only [Keyed.mem_entries_iff]
    cases hv : m.get? label with
    | none =>
      rw [get_of_missing plan h hv]
      exact ⟨fun he => ⟨nofun, (Except.error.inj he).symm⟩, fun he => congrArg _ he.2.symm⟩
    | some v' => simp [get_of_present plan h hv (hm _ (Keyed.mem_entries_iff.2 hv))]

end get

/-! ### All shelves -/

/-- Whatever is asked of a shelf whose file is decoded as YAML, with a schema or without one: until
a load succeeds every question is refused, and from then on the shelf finds a record by its label
just if its listing has one there, be it null, false, zero or an empty text. -/
theorem get_agrees_with_getAll (schema : Option Schema) (filename : String)
    (baseDir : Option String) (source : Source σ) (requests : List Request) (w : σ) :
    let plan : Plan σ := { filename, baseDir, decoder := recordDecoder schema, source }
    ∃ answers s w', performAll plan requests ({}, w) = (answers, (s, w')) ∧
      ((Waits plan requests w answers w' ∧ s.getAll plan = .error (Fault.notLoaded filename) ∧
          ∀ label, s.get plan label = .error (Fault.notLoaded filename)) ∨
        ∃ before names after tried s₁ w₁ m, requests = before ++ .load names :: after ∧
          performAll plan before ({}, w) = (tried, (s₁, w₁)) ∧
          LoadYields source filename plan.decoder baseDir names w₁ m w' ∧
          Consistent plan s m) := by
  intro plan
  obtain ⟨answers, s, w', hrun, h, hw⟩ |
    ⟨before, names, after, tried, s₁, w₁, m, w₂, rfl, hrun, h, -, hl⟩ :=
      performAll_of_empty plan (s := {}) rfl requests w
  · have hall : s.getAll plan = .error (Fault.notLoaded filename) := by rw [getAll, h]
    refine ⟨answers, s, w', hrun, .inl ⟨hw, hall, fun label => ?_⟩⟩
    rw [get, hall]
    rfl
  · have hyields : LoadYields source filename plan.decoder baseDir names w₁ m w₂ := .of_run hl
    have hm : m.Present := by
      cases hyields with
      | decoded _ _ decode => exact recordDecoder_present decode
    have hrecords := records_foldl_asked plan (s := { s₁.started plan with records := some m }) after
    exact ⟨_, _, w₂, performAll_load_ok hrun h hl after, .inr ⟨before, names, after, tried, s₁, w₁,
      m, rfl, hrun, hyields, consistent_of_present plan hrecords hm⟩⟩

/-- Records that count as nothing elsewhere are found. -/
example :
    let plan : Plan Unit :=
      { filename := "f", decoder := Yaml.decoder
        source := ⟨fun _ _ => pure "a:\nb: false\nc: 0\nd: ''\n", fun _ => pure none⟩ }
    let s := (performAll plan [.load ∅] ({}, ())).2.1
    ["a", "b", "c", "d", "e"].map (fun label => (s.get plan label).toOption.isSome) =
      [true, true, true, true, false] := by
  decide +kernel

end Shelf

end Seedbed
