import Seedbed.Proofs.Action
import Seedbed.Proofs.Yaml.Records
import Seedbed.Schema.Records

/-! Records that are checked one by one. The checked records are those of the text, each under its
label and in its place, as the check has it. The first record that does not pass ends it: its fault
has its label and all that is wrong with it, and no record after it is checked. -/

namespace Seedbed

variable {σ α : Type}

/-! ### Steps for each item -/

namespace Action

variable {β γ : Type} {f : β → Action σ γ} {as : List β} {bs : List γ} {w w' : σ}

theorem mapM_of_each (h : Each f as w bs w') : as.mapM f w = (.ok bs, w') := by
  induction h with
  | nil => rfl
  | cons head tail ih =>
    rw [List.mapM_cons, bind_ok head, bind_ok ih]
    rfl

theorem mapM_of_failsAt {done : List β} {a : β} {e : Thrown} (h : FailsAt f as w done a bs e w') :
    as.mapM f w = (.error e, w') := by
  induction h with
  | here head => rw [List.mapM_cons, bind_error head]
  | later head tail ih => rw [List.mapM_cons, bind_ok head, bind_error ih]

end Action

/-! ### Checks -/

/-- A check whose answer is a function of the record alone. What it does to the caller's state is
`effect`. -/
def Validator.ofCheck (check : Value → Except (List Objection) α) (effect : Value → σ → σ) :
    Validator σ α :=
  fun v w => (.ok (check v), effect v w)

/-- A schema is such a check, and one without effect. -/
theorem Schema.validator_eq (schema : Schema) :
    (schema.validator : Validator σ Value) =
      .ofCheck (fun v => (schema.check [] v).mapError (·.map Issue.objection)) fun _ w => w := rfl

def afterChecks (effect : Value → σ → σ) (values : List Value) (w : σ) : σ :=
  values.foldl (fun w v => effect v w) w

/-- The fault of an invalid record. An objection stands under the names that lead to it, with points
between them, or under `(record)` where that is empty. -/
structure Fault.IsInvalid (label : String) (objections : List Objection) (f : Fault) : Prop where
  code : f.code = .decodeFailed
  message : f.message = "record `" ++ label ++ "` is invalid: " ++
    "; ".intercalate (objections.map fun o =>
      (if ".".intercalate o.path = "" then "(record)" else ".".intercalate o.path) ++ ": " ++
        o.message)
  context : f.context = { label := some label }
  retryable : f.retryable = false
  cause : f.cause = some (.failure .schemaMismatch)

theorem Fault.isInvalid_invalidRecord (label : String) (objections : List Objection) :
    IsInvalid label objections (.invalidRecord label objections) where
  code := rfl
  message := rfl
  context := rfl
  retryable := rfl
  cause := rfl

namespace Validator

variable (check : Value → Except (List Objection) α) (effect : Value → σ → σ)

def Checked (entries : List (String × Value)) (outs : List (String × α)) : Prop :=
  List.Forall₂ (fun e o => o.1 = e.1 ∧ check e.2 = .ok o.2) entries outs

def Passes (e : String × Value) : Prop := ∃ v, check e.2 = .ok v

structure FirstInvalid (entries done : List (String × Value)) (label : String) (value : Value)
    (objections : List Objection) : Prop where
  split : ∃ later, entries = done ++ (label, value) :: later
  passed : ∀ e ∈ done, Passes check e
  fails : check value = .error objections

variable {check effect}

theorem entry_ok {e : String × Value} {v : α} (h : check e.2 = .ok v) (w : σ) :
    (ofCheck check effect).entry e w = (.ok (e.1, v), effect e.2 w) := by
  have hrun : ofCheck check effect e.2 w = (.ok (.ok v), effect e.2 w) := by rw [← h]; rfl
  rw [entry, Action.bind_ok hrun]
  rfl

theorem entry_error {e : String × Value} {objections : List Objection}
    (h : check e.2 = .error objections) (w : σ) :
    (ofCheck check effect).entry e w =
      (.error (.fault (Fault.invalidRecord e.1 objections)), effect e.2 w) := by
  have hrun : ofCheck check effect e.2 w = (.ok (.error objections), effect e.2 w) := by
    rw [← h]; rfl
  rw [entry, Action.bind_ok hrun]
  rfl

theorem Checked.each {entries : List (String × Value)} {outs : List (String × α)}
    (h : Checked check entries outs) (w : σ) :
    Action.Each (ofCheck check effect).entry entries w outs
      (afterChecks effect (entries.map Prod.snd) w) := by
  induction h generalizing w with
  | nil => exact .nil
  | @cons e o _ _ he _ ih =>
    obtain ⟨label, v⟩ := o
    obtain ⟨rfl, hv⟩ := he
    exact .cons (entry_ok hv w) (ih (effect e.2 w))

theorem Checked.keys_eq {entries : List (String × Value)} {outs : List (String × α)}
    (h : Checked check entries outs) : outs.map Prod.fst = entries.map Prod.fst := by
  induction h with
  | nil => rfl
  | cons he _ ih => rw [List.map_cons, List.map_cons, he.1, ih]

theorem Checked.exists_mem {entries : List (String × Value)} {outs : List (String × α)}
    {o : String × α} (h : Checked check entries outs) (ho : o ∈ outs) :
    ∃ e ∈ entries, check e.2 = .ok o.2 := by
  induction h with
  | nil => cases ho
  | cons he _ ih =>
    rcases List.mem_cons.1 ho with rfl | ho
    · exact ⟨_, List.mem_cons_self, he.2⟩
    · obtain ⟨e, hmem, he⟩ := ih ho
      exact ⟨e, List.mem_cons_of_mem _ hmem, he⟩

theorem exists_checked {entries : List (String × Value)} (h : ∀ e ∈ entries, Passes check e) :
    ∃ outs, Checked check entries outs := by
  induction entries with
  | nil => exact ⟨[], .nil⟩
  | cons e entries ih =>
    rw [List.forall_mem_cons] at h
    obtain ⟨⟨v, hv⟩, hrest⟩ := h
    obtain ⟨outs, houts⟩ := ih hrest
    exact ⟨(e.1, v) :: outs, .cons ⟨rfl, hv⟩ houts⟩

theorem all_pass_or_first_invalid (check : Value → Except (List Objection) α)
    (entries : List (String × Value)) :
    (∀ e ∈ entries, Passes check e) ∨
      ∃ done label value objections, FirstInvalid check entries done label value objections := by
  induction entries with
  | nil => exact .inl nofun
  | cons e entries ih =>
    cases hv : check e.2 with
    | error objections => exact .inr ⟨[], e.1, e.2, objections, ⟨entries, rfl⟩, nofun, hv⟩
    | ok v =>
      have hpass : Passes check e := ⟨v, hv⟩
      rcases ih with hall | ⟨done, label, value, objections, ⟨later, rfl⟩, hdone, hbad⟩
      · exact .inl (List.forall_mem_cons.2 ⟨hpass, hall⟩)
      · exact .inr ⟨e :: done, label, value, objections, ⟨later, rfl⟩,
          List.forall_mem_cons.2 ⟨hpass, hdone⟩, hbad⟩

section records

variable {text : String} {raw : Records} {w : σ}

theorem records_of_error {e : Thrown} (h : Yaml.records text = .error e) (validate : Validator σ α)
    (w : σ) : validate.records text w = (.error e, w) := by
  have hdecode : Yaml.decoder text w = (.error e, w) := by
    rw [Yaml.decoder, h]
    rfl
  exact Action.bind_error hdecode

theorem records_of_ok (h : Yaml.records text = .ok raw) (validate : Validator σ α) (w : σ) :
    validate.records text w =
      (do return .ofList (← raw.entries.mapM validate.entry) : Action σ (Keyed α)) w :=
  Action.bind_ok (Yaml.decoder_eq_ok_iff.2 ⟨h, rfl⟩)

/-- The labels of records differ, so no checked record replaces another. -/
theorem records_of_checked (h : Yaml.records text = .ok raw) {outs : List (String × α)}
    (hc : Checked check raw.entries outs) (w : σ) :
    (ofCheck check effect).records text w =
        (.ok (.ofList outs), afterChecks effect (raw.entries.map Prod.snd) w) ∧
      (Keyed.ofList outs).entries = outs := by
  constructor
  · rw [records_of_ok h, Action.bind_ok (Action.mapM_of_each (hc.each w))]
    rfl
  · exact Keyed.entries_ofList (by rw [hc.keys_eq]; exact raw.nodup)

theorem records_of_invalid (h : Yaml.records text = .ok raw) {done : List (String × Value)}
    {label : String} {value : Value} {objections : List Objection}
    (hf : FirstInvalid check raw.entries done label value objections) (w : σ) :
    (ofCheck check effect).records text w =
      (.error (.fault (Fault.invalidRecord label objections)),
        afterChecks effect (done.map Prod.snd ++ [value]) w) := by
  obtain ⟨⟨later, hraw⟩, hdone, hbad⟩ := hf
  obtain ⟨outs, houts⟩ := exists_checked hdone
  have hfails : Action.FailsAt (ofCheck check effect).entry (done ++ (label, value) :: later) w done
      (label, value) outs (.fault (Fault.invalidRecord label objections)) _ :=
    (houts.each w).failsAt (entry_error hbad _)
  rw [← hraw] at hfails
  rw [records_of_ok h, Action.bind_error (Action.mapM_of_failsAt hfails), afterChecks, afterChecks,
    List.foldl_append]
  rfl

/-- Where there is an answer, it is what the check made of the records. -/
theorem exists_checked_records {m : Keyed α} {w' : σ}
    (h : (ofCheck check effect).records text w = (.ok m, w')) :
    ∃ raw, Yaml.records text = .ok raw ∧ Checked check raw.entries m.entries := by
  cases hr : Yaml.records text with
  | error e => cases (records_of_error hr _ w).symm.trans h
  | ok raw =>
    rcases all_pass_or_first_invalid check raw.entries with hall | ⟨done, label, value, objs, hf⟩
    · obtain ⟨outs, houts⟩ := exists_checked hall
      obtain ⟨hrecords, hentries⟩ := records_of_checked hr houts w
      cases hrecords.symm.trans h
      refine ⟨raw, rfl, ?_⟩
      rw [hentries]
      exact houts
    · cases (records_of_invalid hr hf w).symm.trans h

/-- The checked records are those of the text one by one, whatever the check and what it does to
the caller's state. Where the text has no records, nothing is checked and the error is the same.
Else there is an answer just if all records pass: the same labels in the same order, each with what
the check made of its record. The first record that does not pass gives the fault, and neither the
records after it nor what the check says of them have to do with that. -/
theorem records_pointwise (check : Value → Except (List Objection) α) (effect : Value → σ → σ)
    (text : String) (w : σ) :
    (∀ e, Yaml.records text = .error e →
      (ofCheck check effect).records text w = (.error e, w)) ∧
    ∀ raw, Yaml.records text = .ok raw →
      ((∃ m w', (ofCheck check effect).records text w = (.ok m, w')) ↔
        ∀ e ∈ raw.entries, Passes check e) ∧
      (∀ m w', (ofCheck check effect).records text w = (.ok m, w') →
        Checked check raw.entries m.entries ∧
          w' = afterChecks effect (raw.entries.map Prod.snd) w) ∧
      ((∀ e ∈ raw.entries, Passes check e) ∨
        ∃ done label value objections,
          FirstInvalid check raw.entries done label value objections) ∧
      ∀ done label value objections,
        FirstInvalid check raw.entries done label value objections →
        ∃ f : Fault, f.IsInvalid label objections ∧
          (ofCheck check effect).records text w =
            (.error (.fault f), afterChecks effect (done.map Prod.snd ++ [value]) w) ∧
          ∀ text' raw' check', Yaml.records text' = .ok raw' →
            (∃ later, raw'.entries = done ++ (label, value) :: later) →
            (∀ v ∈ done.map Prod.snd ++ [value], check' v = check v) →
            (ofCheck check' effect).records text' w = (ofCheck check effect).records text w := by
  refine ⟨fun e h => records_of_error h _ w, fun raw h => ⟨⟨?_, ?_⟩, ?_, ?_, ?_⟩⟩
  · rintro ⟨m, w', hrun⟩
    rcases all_pass_or_first_invalid check raw.entries with hall | ⟨done, label, value, objs, hf⟩
    · exact hall
    · cases (records_of_invalid h hf w).symm.trans hrun
  · intro hall
    obtain ⟨outs, houts⟩ := exists_checked hall
    exact ⟨_, _, (records_of_checked h houts w).1⟩
  · intro m w' hrun
    rcases all_pass_or_first_invalid check raw.entries with hall | ⟨done, label, value, objs, hf⟩
    · obtain ⟨outs, houts⟩ := exists_checked hall
      obtain ⟨hrecords, hentries⟩ := records_of_checked h houts w
      cases hrecords.symm.trans hrun
      rw [hentries]
      exact ⟨houts, rfl⟩
    · cases (records_of_invalid h hf w).symm.trans hrun
  · exact all_pass_or_first_invalid check raw.entries
  · intro done label value objections hf
    have hrun : (ofCheck check effect).records text w = _ := records_of_invalid h hf w
    refine ⟨_, Fault.isInvalid_invalidRecord label objections, hrun, ?_⟩
    intro text' raw' check' h' hraw' hsame
    have hf' : FirstInvalid check' raw'.entries done label value objections := by
      refine ⟨hraw', fun e he => ?_, ?_⟩
      · rw [Passes, hsame e.2 (List.mem_append_left _ (List.mem_map_of_mem he))]
        exact hf.passed e he
      · rw [hsame value (by simp), hf.fails]
    rw [hrun]
    exact records_of_invalid h' hf' w

/-- The record after the invalid one is not looked at. -/
example : (match Schema.records (.record [("n", .number true none none)] .refused)
      "a:\n  n: 1\nb:\n  n: 1.5\n  m: 2\nc: 3\n" with
    | .ok _ => ""
    | .error e => e.reason) =
      "record `b` is invalid: n: Expected integer, received float; "
        ++ "(record): Unrecognized key(s) in object: 'm'" := by
  decide +kernel

end records

end Validator

end Seedbed
