import Seedbed.Proofs.Schema.Validation
import Seedbed.Proofs.Yaml.Evaluate

/-! Values that are there. No YAML text describes an absent value, and no schema makes one of a
value that is there: a default takes the place of what is absent, and what is absent passes only
where it was absent before. So no record that these decoders give is absent, whatever its fields
are. -/

namespace Seedbed

namespace Schema

theorem eq_of_checked {α : Type} {issues : List Issue} {a b : α} (h : checked issues a = .ok b) :
    a = b := by
  unfold checked at h
  split at h
  · exact Except.ok.inj h
  · cases h

theorem exists_of_map_ok {α β : Type} {f : α → β} {r : Checked α} {b : β} (h : r.map f = .ok b) :
    ∃ a, f a = b := by
  cases r with
  | ok a => exact ⟨a, Except.ok.inj h⟩
  | error issues => cases h

/-- A value that is there is still there once it is checked. A default replaces only what is
absent, and an absent value passes only where one was given. -/
theorem ne_absent_of_check : ∀ (schema : Schema) {path : List String} {v v' : Value},
    v ≠ .absent → schema.check path v = .ok v' → v' ≠ .absent
  | .text min max, path, v, v', hv, h => by
    unfold check at h
    split at h
    · cases eq_of_checked h
      exact hv
    · cases h
  | .number whole min max, path, v, v', hv, h => by
    unfold check at h
    split at h
    · cases h
    · cases eq_of_checked h
      exact hv
    · cases h
  | .bool, path, v, v', hv, h => by
    unfold check at h
    split at h
    · cases h
      exact hv
    · cases h
  | .any, path, v, v', hv, h => by
    unfold check at h
    cases h
    exact hv
  | .oneOf values, path, v, v', hv, h => by
    unfold check at h
    split at h
    · cases eq_of_checked h
      exact hv
    · cases h
  | .list items, path, v, v', hv, h => by
    unfold check at h
    split at h
    · obtain ⟨vs, rfl⟩ := exists_of_map_ok h
      nofun
    · cases h
  | .record schemas unknown, path, v, v', hv, h => by
    unfold check at h
    split at h
    · obtain ⟨fields, rfl⟩ := exists_of_map_ok h
      nofun
    · cases h
  | .orNull inner, path, v, v', hv, h => by
    unfold check at h
    split at h
    · cases h
      exact hv
    · exact ne_absent_of_check inner hv h
  | .orAbsent inner, path, v, v', hv, h => by
    unfold check at h
    split at h
    · exact absurd rfl hv
    · exact ne_absent_of_check inner hv h
  | .withDefault inner value, path, v, v', hv, h => by
    unfold check at h
    split at h
    · exact absurd rfl hv
    · exact ne_absent_of_check inner hv h

end Schema

def Records.Present (m : Records) : Prop := ∀ e ∈ m.entries, e.2 ≠ .absent

section decoders

variable {σ : Type} {text : String} {m : Records} {w w' : σ}

theorem Yaml.records_present (h : Yaml.records text = .ok m) : Records.Present m :=
  fun _ he => (Yaml.describable_of_records h he).ne_absent

theorem Schema.records_present {schema : Schema} (h : schema.decoder text w = (.ok m, w')) :
    Records.Present m := by
  rw [decoder, validator_eq] at h
  obtain ⟨raw, hraw, hchecked⟩ := Validator.exists_checked_records h
  intro o ho
  obtain ⟨e, he, hcheck⟩ := hchecked.exists_mem ho
  cases hr : schema.check [] e.2 with
  | ok v =>
    rw [hr] at hcheck
    cases hcheck
    exact schema.ne_absent_of_check (Yaml.records_present hraw e he) hr
  | error issues =>
    rw [hr] at hcheck
    cases hcheck

end decoders

/-- Decodes YAML texts, with a schema for their records or without one. -/
def recordDecoder {σ : Type} : Option Schema → Decoder σ
  | none => Yaml.decoder
  | some schema => schema.decoder

theorem recordDecoder_present {σ : Type} {schema : Option Schema} {text : String} {m : Records}
    {w w' : σ} (h : recordDecoder schema text w = (.ok m, w')) : m.Present := by
  cases schema with
  | none => exact Yaml.records_present (Yaml.decoder_eq_ok_iff.1 h).1
  | some schema => exact Schema.records_present h

end Seedbed
