import Seedbed.Proofs.Keyed
import Seedbed.Proofs.Seeder.Populate

/-! The log of a seeder. A call adds one line at the level of information, as it begins; what
follows are lines about the inserts, which name the labels of the records in their order, and a line
about what failed. -/

namespace Seedbed

namespace Log.Line

def insertedLabel? (line : Log.Line) : Option String :=
  if line.message = some "record inserted" then
    match line.fields.lookup "label" with
    | some (.text label) => some label
    | _ => none
  else none

end Log.Line

namespace Seeder

/-! ### Lines about inserts -/

def registerLines (filename : String) (names : Registry) :
    List (String × Identifier) → List Log.Line
  | [] => []
  | (label, id) :: pairs =>
    (if names.has label then [overwritingLine filename label] else []) ++
      insertedLine filename label :: registerLines filename (names.insert label id.toText) pairs

theorem register_log (filename label : String) (id : Identifier) (s : Seeder) :
    (s.register filename label id).log = s.log ++
      ((if s.names.has label then [overwritingLine filename label] else []) ++
        [insertedLine filename label]) := by
  unfold register
  split <;> simp [note]

theorem registerAll_log (filename : String) (s : Seeder) (pairs : List (String × Identifier)) :
    (s.registerAll filename pairs).log = s.log ++ registerLines filename s.names pairs := by
  induction pairs generalizing s with
  | nil => exact (List.append_nil s.log).symm
  | cons p pairs ih =>
    have hrest := ih (s.register filename p.1 p.2)
    rw [register_log, register_names, List.append_assoc, List.append_assoc] at hrest
    exact hrest

theorem loaded_registerAll_log (filename : String) (s : Seeder)
    (pairs : List (String × Identifier)) :
    ((s.loaded filename).registerAll filename pairs).log = s.log ++
      ([populatingLine filename s.baseDir] ++ registerLines filename s.names pairs) := by
  rw [registerAll_log, ← List.append_assoc]
  rfl

theorem insertedLabel?_registerLines (filename : String) (names : Registry)
    (pairs : List (String × Identifier)) :
    (registerLines filename names pairs).filterMap Log.Line.insertedLabel? = pairs.map Prod.fst := by
  induction pairs generalizing names with
  | nil => rfl
  | cons p pairs ih =>
    obtain ⟨label, id⟩ := p
    have hinserted : (insertedLine filename label).insertedLabel? = some label := rfl
    have hoverwriting : (overwritingLine filename label).insertedLabel? = none := rfl
    rw [registerLines, List.filterMap_append, List.filterMap_cons_some hinserted, ih]
    split <;> simp [hoverwriting]

/-- Seeders that registered identifiers alike did so under the same labels. -/
theorem labels_of_registerAll {filename : String} {s : Seeder}
    {pairs pairs' : List (String × Identifier)}
    (h : s.registerAll filename pairs = s.registerAll filename pairs') :
    pairs.map Prod.fst = pairs'.map Prod.fst := by
  have hlog := congrArg Seeder.log h
  rw [registerAll_log, registerAll_log] at hlog
  rw [← insertedLabel?_registerLines filename s.names, List.append_cancel_left hlog,
    insertedLabel?_registerLines]

def insertLines (filename : String) (earlier : List String) : List String → List Log.Line
  | [] => []
  | label :: labels =>
    (if label ∈ earlier then [overwritingLine filename label] else []) ++
      insertedLine filename label :: insertLines filename (earlier ++ [label]) labels

theorem registerLines_eq {filename : String} {names : Registry} {earlier : List String}
    (h : ∀ label, names.has label = true ↔ label ∈ earlier) (pairs : List (String × Identifier)) :
    registerLines filename names pairs = insertLines filename earlier (pairs.map Prod.fst) := by
  induction pairs generalizing names earlier with
  | nil => rfl
  | cons p pairs ih =>
    obtain ⟨label, id⟩ := p
    have hnext : ∀ l, (names.insert label id.toText).has l = true ↔ l ∈ earlier ++ [label] := by
      intro l
      rw [Registry.has_insert, Bool.or_eq_true, decide_eq_true_eq, h, List.mem_append,
        List.mem_singleton, or_comm]
    rw [registerLines, ih hnext, List.map_cons, insertLines, if_congr (h label) rfl rfl]

theorem level_of_mem_insertLines {filename : String} {earlier labels : List String}
    {line : Log.Line} (h : line ∈ insertLines filename earlier labels) : line.level = .debug := by
  induction labels generalizing earlier with
  | nil => cases h
  | cons label labels ih =>
    rw [insertLines, List.mem_append, List.mem_cons] at h
    obtain h | rfl | h := h
    · split at h
      · obtain rfl := List.mem_singleton.1 h
        rfl
      · cases h
    · rfl
    · exact ih h

theorem level_of_mem_registerLines {filename : String} {names : Registry}
    {pairs : List (String × Identifier)} {line : Log.Line}
    (h : line ∈ registerLines filename names pairs) : line.level = .debug := by
  have hkeys : ∀ label, names.has label = true ↔ label ∈ names.ids.keys :=
    fun _ => Keyed.contains_iff
  rw [registerLines_eq hkeys] at h
  exact level_of_mem_insertLines h

/-! ### Lines at the level of information -/

def infoLines (s : Seeder) : List Log.Line := s.log.filter fun line => line.level = .info

theorem infoLines_of_log {s s' : Seeder} {lines later : List Log.Line}
    (h : s'.log = s.log ++ (lines ++ later)) (hlines : ∀ line ∈ lines, line.level = .info)
    (hlater : ∀ line ∈ later, line.level ≠ .info) : s'.infoLines = s.infoLines ++ lines := by
  have hkept : lines.filter (fun line => line.level = .info) = lines :=
    List.filter_eq_self.2 fun line hline => decide_eq_true (hlines line hline)
  have hleft : later.filter (fun line => line.level = .info) = [] :=
    List.filter_eq_nil_iff.2 fun line hline => by simpa using hlater line hline
  rw [infoLines, infoLines, h, List.filter_append, List.filter_append, hkept, hleft,
    List.append_nil]

section ending

variable {σ : Type} {source : Source σ} {filename : String} {decoder : Decoder σ}
  {insert : Inserter σ} {s s' : Seeder} {w w' : σ} {r : Except Thrown (List Identifier)}
  {new : List Call}

/-- However a call ends, the line that it begins with is the only one at this level. -/
theorem Ending.infoLines (h : Ending source filename decoder insert s w r s' new w') :
    s'.infoLines = s.infoLines ++ [populatingLine filename s.baseDir] := by
  have hfirst : ∀ line ∈ [populatingLine filename s.baseDir], line.level = .info := by
    simp [populatingLine, line]
  cases h with
  | @unloaded e _ _ fails load asked =>
    have hlog : (s.loadFailed filename e).log =
        s.log ++ ([populatingLine filename s.baseDir] ++ [loadFailedLine filename e]) :=
      List.append_assoc _ _ _
    refine infoLines_of_log hlog hfirst ?_
    simp [loadFailedLine, line]
  | finished yields asked each =>
    refine infoLines_of_log (loaded_registerAll_log filename s _) hfirst fun line hline => ?_
    rw [level_of_mem_registerLines hline]
    decide
  | @stopped records _ done label record ids e names w₁ _ yields asked fails =>
    have hlog : (((s.loaded filename).registerAll filename
        ((done.map Prod.fst).zip ids)).noteFailure filename label e).log =
        s.log ++ ([populatingLine filename s.baseDir] ++
          (registerLines filename s.names ((done.map Prod.fst).zip ids) ++
            [insertFailedLine filename label e])) := by
      rw [noteFailure, note, loaded_registerAll_log, List.append_assoc, List.append_assoc]
    refine infoLines_of_log hlog hfirst fun line hline => ?_
    obtain hline | hline := List.mem_append.1 hline
    · rw [level_of_mem_registerLines hline]
      decide
    · obtain rfl := List.mem_singleton.1 hline
      simp [insertFailedLine, Seeder.line]

end ending

end Seeder

end Seedbed
