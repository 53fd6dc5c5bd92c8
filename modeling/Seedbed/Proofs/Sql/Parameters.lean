import Seedbed.Proofs.Sql.Statement
import Seedbed.Proofs.Yaml.Evaluate

/-! The parameters of an `INSERT`. A list or a record becomes its JSON text and every other value is
passed as it is, so only an integer of any size within a list or a record, or a list or a record
within itself, can prevent the query. The records of a YAML text hold no such integer, but by an
alias for a node around it they can hold themselves. -/

namespace Seedbed

namespace Value

inductive IsCollection : Value → Prop
  | list (items : List Value) : IsCollection (.list items)
  | record (fields : List (String × Value)) : IsCollection (.record fields)

/-- A value that can be a parameter by itself. -/
inductive IsBasic : Value → Prop
  | null : IsBasic .null
  | bool (b : Bool) : IsBasic (.bool b)
  | number (x : Binary64) : IsBasic (.number x)
  | integer (n : Int) : IsBasic (.integer n)
  | text (s : String) : IsBasic (.text s)
  | instant (t : Instant) : IsBasic (.instant t)
  | bytes (bs : List UInt8) : IsBasic (.bytes bs)

/-- A value that is built from basic ones and absent ones by lists and records, which may stand
within themselves. It is in so many collections that its references can be to. -/
inductive Built : Nat → Value → Prop
  | absent {n : Nat} : Built n .absent
  | basic {n : Nat} {v : Value} (h : v.IsBasic) : Built n v
  | list {n : Nat} {items : List Value} (h : ∀ v ∈ items, Built (n + 1) v) : Built n (.list items)
  | record {n : Nat} {fields : List (String × Value)} (h : ∀ f ∈ fields, Built (n + 1) f.2) :
      Built n (.record fields)
  | enclosing {n up : Nat} (h : up < n) : Built n (.enclosing up)

theorem IsCollection.isAbsent {v : Value} (h : v.IsCollection) : v.isAbsent = false := by
  cases h with
  | list items | record fields => rfl

/-- What is built and set is basic or a collection. -/
theorem Built.isBasic_or_isCollection {v : Value} (h : v.Built 0) (hset : v.isAbsent = false) :
    v.IsBasic ∨ v.IsCollection := by
  cases h with
  | absent => cases hset
  | basic h => exact .inl h
  | list _ => exact .inr (.list _)
  | record _ => exact .inr (.record _)
  | enclosing h => exact absurd h (Nat.not_lt_zero _)

theorem Built.ne_enclosing {v : Value} (h : v.Built 0) (up : Nat) : v ≠ .enclosing up := by
  rintro rfl
  cases h with
  | basic h => cases h
  | enclosing h => exact absurd h (Nat.not_lt_zero _)

theorem IsBasic.parameter {v : Value} (h : v.IsBasic) : v.parameter = .ok v := by
  cases h with
  | null | bool _ | number _ | integer _ | text _ | instant _ | bytes _ => rfl

theorem IsCollection.parameter {v : Value} (h : v.IsCollection) :
    v.parameter = (Json.write [] v).map fun cs => .text (.ofList cs) := by
  cases h with
  | list items | record fields => rfl

/-- A collection can be no parameter just if an integer of any size or a reference stands in it. -/
theorem IsCollection.parameter_eq_error_iff {v : Value} (h : v.IsCollection) :
    (∃ e, v.parameter = .error e) ↔ v.HoldsInteger ∨ v.IsCircular := by
  rw [h.parameter]
  rcases Json.write_cases [] v with ⟨hinteger, hcircular, cs, hw⟩ | ⟨e, he, hw⟩
  · simp [hw, hinteger, hcircular, Except.map]
  · refine iff_of_true ⟨e, by rw [hw]; rfl⟩ ?_
    cases he with
    | integer h => exact .inl h
    | circular _ h => exact .inr h

/-- Apart from lists and records, only a reference by itself can be no parameter. -/
theorem isCollection_of_parameter {v : Value} {e : Failure} (h : v.parameter = .error e)
    (hne : ∀ up, v ≠ .enclosing up) : v.IsCollection := by
  cases v with
  | list items => exact .list items
  | record fields => exact .record fields
  | enclosing up => exact absurd rfl (hne up)
  | absent | null | bool _ | number _ | integer _ | text _ | symbol _ | instant _ | bytes _ | set _
  | dictionary _ => cases h

theorem IsCollection.hindered {v : Value} (h : v.IsCollection) {e : Failure}
    (he : v.parameter = .error e) : Json.Hindered v e := by
  rw [h.parameter, map_eq_error] at he
  exact Json.hindered_of_write he

end Value

namespace Sql

inductive Passed : Value → Value → Prop
  | unchanged {v : Value} (h : v.IsBasic) : Passed v v
  | json {v : Value} {cs : List Char} (h : v.IsCollection) (hw : Json.write [] v = .ok cs) :
      Passed v (.text (.ofList cs))

theorem Passed.isBasic {v p : Value} (h : Passed v p) : p.IsBasic := by
  cases h with
  | unchanged h => exact h
  | json h hw => exact .text _

theorem passed_of_parameter {v p : Value} (hv : v.IsBasic ∨ v.IsCollection)
    (h : v.parameter = .ok p) : Passed v p := by
  rcases hv with hb | hc
  · cases hb.parameter.symm.trans h
    exact .unchanged hb
  · rw [hc.parameter] at h
    obtain ⟨cs, hw, rfl⟩ := map_eq_ok.1 h
    exact .json hc hw

theorem mem_assigned {row : Value} {fields : List (String × Value)} (h : row.fields? = some fields)
    {f : String × Value} : f ∈ assigned row ↔ f ∈ fields ∧ f.2.isAbsent = false := by
  simp [assigned, h]

section rows

variable {table idColumn : String} {row : Value} {fields : List (String × Value)}

theorem ReadsBack.exists_parameter {q : Query} (h : ReadsBack table row idColumn q)
    {f : String × Value} (hf : f ∈ assigned row) : ∃ p ∈ q.parameters, f.2.parameter = .ok p := by
  have hmem : f.2.parameter ∈ q.parameters.map .ok := h.parameters ▸ List.mem_map_of_mem hf
  obtain ⟨p, hp, heq⟩ := List.mem_map.1 hmem
  exact ⟨p, hp, heq.symm⟩

theorem exists_of_insert_error (h : row.fields? = some fields) {e : Failure}
    (he : Query.insert table row idColumn = .error e) :
    ∃ f ∈ assigned row, f.2.parameter = .error e := by
  rcases insert_cases table row idColumn with ⟨hnone, -⟩ | ⟨-, f, hf, e', he', hq⟩ | ⟨q, hq, -, -⟩
  · rw [h] at hnone
    cases hnone
  · cases hq.symm.trans he
    exact ⟨f, hf, he'⟩
  · cases hq.symm.trans he

theorem insert_eq_error_iff (h : row.fields? = some fields) :
    (∃ e, Query.insert table row idColumn = .error e) ↔
      ∃ f ∈ assigned row, ∃ e, f.2.parameter = .error e := by
  constructor
  · rintro ⟨e, he⟩
    obtain ⟨f, hf, hp⟩ := exists_of_insert_error h he
    exact ⟨f, hf, e, hp⟩
  · rintro ⟨f, hf, e, he⟩
    cases hq : Query.insert table row idColumn with
    | error e' => exact ⟨e', rfl⟩
    | ok q =>
      obtain ⟨p, -, hp⟩ := (readsBack_of_insert hq).exists_parameter hf
      cases he.symm.trans hp

/-- Where no field is a reference by itself, a query fails just if a list or a record under one of
them holds an integer of any size or itself. -/
theorem insert_fails_iff (h : row.fields? = some fields)
    (hne : ∀ f ∈ fields, ∀ up, f.2 ≠ .enclosing up) :
    (∃ e, Query.insert table row idColumn = .error e) ↔
      ∃ f ∈ fields, f.2.IsCollection ∧ (f.2.HoldsInteger ∨ f.2.IsCircular) := by
  rw [insert_eq_error_iff h]
  constructor
  · rintro ⟨f, hf, e, he⟩
    have hmem := ((mem_assigned h).1 hf).1
    have hc := Value.isCollection_of_parameter he (hne f hmem)
    exact ⟨f, hmem, hc, hc.parameter_eq_error_iff.1 ⟨e, he⟩⟩
  · rintro ⟨f, hf, hc, hv⟩
    exact ⟨f, (mem_assigned h).2 ⟨hf, hc.isAbsent⟩, hc.parameter_eq_error_iff.2 hv⟩

theorem hindered_of_insert (h : row.fields? = some fields)
    (hne : ∀ f ∈ fields, ∀ up, f.2 ≠ .enclosing up) {e : Failure}
    (he : Query.insert table row idColumn = .error e) :
    ∃ f ∈ fields, f.2.IsCollection ∧ Json.Hindered f.2 e := by
  obtain ⟨f, hf, hp⟩ := exists_of_insert_error h he
  have hmem := ((mem_assigned h).1 hf).1
  have hc := Value.isCollection_of_parameter hp (hne f hmem)
  exact ⟨f, hmem, hc, hc.hindered hp⟩

/-- The fields that are set have the parameters of a query, one each and in their order. -/
theorem passed_of_insert (h : row.fields? = some fields) (hb : ∀ f ∈ fields, f.2.Built 0)
    {q : Query} (hq : Query.insert table row idColumn = .ok q) :
    List.Forall₂ (fun f p => Passed f.2 p) (assigned row) q.parameters := by
  have hvalues : List.Forall₂ (fun f p => f.2.parameter = .ok p) (assigned row) q.parameters := by
    refine List.forall₂_map_left_iff.1 (List.forall₂_map_right_iff.1 ?_)
    rw [List.forall₂_eq_eq_eq]
    exact (readsBack_of_insert hq).parameters.symm
  have hset : ∀ f ∈ assigned row, f.2.IsBasic ∨ f.2.IsCollection := by
    intro f hf
    obtain ⟨hmem, hset⟩ := (mem_assigned h).1 hf
    exact (hb f hmem).isBasic_or_isCollection hset
  have hboth := (List.forall₂_and_left _ _).2 ⟨hset, hvalues⟩
  exact hboth.imp fun f p hp => passed_of_parameter hp.1 hp.2

end rows

theorem isBasic_of_passed {fields : List (String × Value)} {parameters : List Value}
    (h : List.Forall₂ (fun f p => Passed f.2 p) fields parameters) :
    ∀ p ∈ parameters, p.IsBasic := by
  induction h with
  | nil => exact nofun
  | cons hp _ ih => exact List.forall_mem_cons.2 ⟨hp.isBasic, ih⟩

/-! ### Records of a text -/

theorem mem_of_itemFields {items : List Value} {f : String × Value}
    (h : f ∈ Value.itemFields items) : f.2 ∈ items := by
  obtain ⟨⟨v, i⟩, hv, rfl⟩ := List.mem_map.1 h
  exact List.fst_mem_of_mem_zipIdx hv

/-- The fields of a list or a record that a text describes have such values, or are absent. -/
theorem exists_fields_of_describable {row : Value} (h : row.Describable 0) (hc : row.IsCollection) :
    ∃ fields, row.fields? = some fields ∧ ∀ f ∈ fields, f.2 ≠ .absent → f.2.Describable 0 := by
  cases h with
  | list h => exact ⟨_, rfl, fun f hf _ => Value.Describable.itemsOf h f.2 (mem_of_itemFields hf)⟩
  | record h => exact ⟨_, rfl, Value.Describable.valuesOf h⟩
  | scalar h => cases h <;> cases hc
  | set _ | dictionary _ _ | enclosing _ => cases hc

theorem ne_absent_of_isCircular {v : Value} (h : v.IsCircular) : v ≠ .absent := by
  rintro rfl
  obtain ⟨up, hup⟩ := h
  cases hup with
  | within hp _ => cases hp

theorem isCollection_of_isCircular {v : Value} (h : v.Describable 0) (hc : v.IsCircular) :
    v.IsCollection := by
  obtain ⟨up, hup⟩ := hc
  cases h with
  | list _ => exact .list _
  | record _ => exact .record _
  | enclosing h => exact absurd h (Nat.not_lt_zero _)
  | scalar h =>
    cases hup with
    | here => cases h
    | within hp _ => cases h <;> cases hp
  | set _ | dictionary _ _ =>
    cases hup with
    | within hp _ => cases hp

/-- A query for a list or a record of a text fails just if one of its fields holds itself. -/
theorem insert_fails_of_describable (table idColumn : String) {row : Value}
    (h : row.Describable 0) (hc : row.IsCollection) :
    ∃ fields, row.fields? = some fields ∧ (∀ f ∈ fields, f.2 ≠ .absent → f.2.Describable 0) ∧
      ((∃ e, Query.insert table row idColumn = .error e) ↔ ∃ f ∈ fields, f.2.IsCircular) ∧
      ∀ e, Query.insert table row idColumn = .error e → ∃ circle, e = .circularJson circle := by
  obtain ⟨fields, hfields, hd⟩ := exists_fields_of_describable h hc
  have hne : ∀ f ∈ fields, ∀ up, f.2 ≠ .enclosing up := by
    intro f hf up heq
    exact (hd f hf (by rw [heq]; nofun)).ne_enclosing up heq
  have hinteger : ∀ f ∈ fields, f.2.IsCollection → ¬f.2.HoldsInteger := by
    intro f hf hc
    refine (hd f hf ?_).not_holdsInteger
    intro habsent
    rw [habsent] at hc
    cases hc
  refine ⟨fields, hfields, hd, ?_, fun e he => ?_⟩
  · rw [insert_fails_iff hfields hne]
    constructor
    · rintro ⟨f, hf, hc, hv | hv⟩
      · exact absurd hv (hinteger f hf hc)
      · exact ⟨f, hf, hv⟩
    · rintro ⟨f, hf, hv⟩
      exact ⟨f, hf, isCollection_of_isCircular (hd f hf (ne_absent_of_isCircular hv)) hv, .inr hv⟩
  · obtain ⟨f, hf, hc, hh⟩ := hindered_of_insert hfields hne he
    cases hh with
    | integer hv => exact absurd hv (hinteger f hf hc)
    | circular circle _ => exact ⟨circle, rfl⟩

/-- A query for a row fails only where an integer of any size stands within a list or a record of
one of its fields, or where such a list or record stands within itself, and the error says which of
both it is. Otherwise there is one parameter for each field that is set, in the order of the fields:
a list or a record is passed as its JSON text and any other value unchanged, so that no parameter is
a list or a record. For a list or a record of a YAML text there is a query unless the value of one
of its fields stands within itself: all the references in these values are to collections around
them. -/
theorem insert_parameters (table idColumn : String) :
    (∀ row fields, row.fields? = some fields → (∀ f ∈ fields, f.2.Built 0) →
      ((∃ e, Query.insert table row idColumn = .error e) ↔
        ∃ f ∈ fields, f.2.IsCollection ∧ (f.2.HoldsInteger ∨ f.2.IsCircular)) ∧
      (∀ e, Query.insert table row idColumn = .error e →
        ∃ f ∈ fields, f.2.IsCollection ∧ Json.Hindered f.2 e) ∧
      ∀ q, Query.insert table row idColumn = .ok q →
        List.Forall₂ (fun f p => Passed f.2 p) (assigned row) q.parameters ∧
        ∀ p ∈ q.parameters, p.IsBasic) ∧
    ∀ text m, Yaml.records text = .ok m → ∀ e ∈ m.entries, e.2.IsCollection →
      ∃ fields, e.2.fields? = some fields ∧ (∀ f ∈ fields, f.2 ≠ .absent → f.2.Describable 0) ∧
        ((∃ failure, Query.insert table e.2 idColumn = .error failure) ↔
          ∃ f ∈ fields, f.2.IsCircular) ∧
        ∀ failure, Query.insert table e.2 idColumn = .error failure →
          ∃ circle, failure = .circularJson circle := by
  refine ⟨fun row fields h hb => ?_, ?_⟩
  · have hne : ∀ f ∈ fields, ∀ up, f.2 ≠ .enclosing up := fun f hf => (hb f hf).ne_enclosing
    refine ⟨insert_fails_iff h hne, fun e he => hindered_of_insert h hne he, fun q hq => ?_⟩
    have hpassed := passed_of_insert h hb hq
    exact ⟨hpassed, isBasic_of_passed hpassed⟩
  · intro text m hm e he hc
    exact insert_fails_of_describable table idColumn (Yaml.describable_of_records hm he) hc

/-- Whether there is a list or a record among the records for which there is no query. -/
def lacksQuery (table idColumn : String) : Except Thrown Records → Bool
  | .ok m => m.entries.any fun e =>
    match e.2, Query.insert table e.2 idColumn with
    | .list _, .error _ | .record _, .error _ => true
    | _, _ => false
  | .error _ => false

/-- A record whose field is the record itself has no query. -/
theorem exists_record_within_itself : ¬ ∀ text m, Yaml.records text = .ok m →
    ∀ e ∈ m.entries, e.2.IsCollection → ∃ q, Query.insert "t" e.2 "id" = .ok q := by
  intro h
  have hlacks : lacksQuery "t" "id" (Yaml.records "row: &a\n  f: *a\n") = true := by decide +kernel
  cases hm : Yaml.records "row: &a\n  f: *a\n" with
  | error e =>
    rw [hm] at hlacks
    cases hlacks
  | ok m =>
    rw [hm] at hlacks
    obtain ⟨e, he, hno⟩ := List.any_eq_true.1 hlacks
    split at hno
    · next items failure hlist herror =>
      obtain ⟨q, hq⟩ := h _ m hm e he (hlist ▸ .list items)
      cases herror.symm.trans hq
    · next fields failure hrecord herror =>
      obtain ⟨q, hq⟩ := h _ m hm e he (hrecord ▸ .record fields)
      cases herror.symm.trans hq
    · cases hno

end Sql

end Seedbed
