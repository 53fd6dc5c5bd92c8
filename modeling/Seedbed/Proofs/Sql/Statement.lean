import Seedbed.Proofs.Sql.Lexeme
import Seedbed.Proofs.Value.Json

/-! `INSERT` statements read back from their text. Whatever characters the names have, the table,
the columns, the placeholders and the column of the identifier are those that the query was made of,
so no name can change the statement. -/

namespace Seedbed

namespace Sql

inductive Filling
  | defaults
  | listed (columns : List String) (parameters : List Nat)
  deriving DecidableEq

structure Reading where
  table : String
  filling : Filling
  returning : String
  deriving DecidableEq

namespace Lexeme

def name? : Lexeme → Option String
  | name s => some s
  | _ => none

def parameter? : Lexeme → Option Nat
  | parameter n => some n
  | _ => none

end Lexeme

/-- The items before a closing bracket, with a comma between any two, and what stands after it. -/
def items? {α : Type} (item : Lexeme → Option α) : List Lexeme → Option (List α × List Lexeme)
  | l :: .mark ',' :: rest => do
    let a ← item l
    let (as, rest) ← items? item rest
    return (a :: as, rest)
  | l :: .mark ')' :: rest => (item l).map fun a => ([a], rest)
  | _ => none

def ofLexemes? : List Lexeme → Option Reading
  | [.word "INSERT", .word "INTO", .name table, .word "DEFAULT", .word "VALUES",
      .word "RETURNING", .name returning] => some ⟨table, .defaults, returning⟩
  | .word "INSERT" :: .word "INTO" :: .name table :: .mark '(' :: rest => do
    let (columns, rest) ← items? Lexeme.name? rest
    match rest with
    | .word "VALUES" :: .mark '(' :: rest =>
      let (parameters, rest) ← items? Lexeme.parameter? rest
      match rest with
      | [.word "RETURNING", .name returning] => some ⟨table, .listed columns parameters, returning⟩
      | _ => none
    | _ => none
  | _ => none

def read? (sql : String) : Option Reading := (lexemes? sql.toList).bind ofLexemes?

/-- A name that looks like the end of the list of columns stays a name. -/
example :
    read? "INSERT INTO \"t\" (\"a\"\") VALUES ($1) --\", \"b\") VALUES ($1, $2) RETURNING \"id\"" =
      some ⟨"t", .listed ["a\") VALUES ($1) --", "b"] [1, 2], "id"⟩ := by cbv

theorem items?_listed {α : Type} {item : Lexeme → Option α} {lexeme : α → Lexeme}
    (h : ∀ a, item (lexeme a) = some a) {as : List α} (hne : as ≠ []) (rest : List Lexeme) :
    items? item (listed (as.map lexeme) ++ .mark ')' :: rest) = some (as, rest) := by
  induction as with
  | nil => exact absurd rfl hne
  | cons a as ih =>
    cases as with
    | nil => simp [listed, items?, h]
    | cons b as =>
      have hrest := ih (by simp)
      simp only [List.map_cons, listed] at hrest
      simp [listed, items?, h, hrest]

/-! ### The text of a statement -/

section words

variable {rest : List Char}

theorem lexemes?_capitals (w : String) {c : Char} {cs : List Char} (hw : w.toList = c :: cs)
    (hc : isLetter c) (h : cs.all isWordChar) :
    lexemes? (w.toList ++ ' ' :: rest) = (lexemes? rest).map (.word w :: ·) := by
  rw [hw, List.cons_append, lexemes?_word hc (List.all_eq_true.1 h) (apart_cons _ (by simp)),
    lexemes?_space, ← hw, String.ofList_toList]

theorem lexemes?_insertInto (table : String) (hr : Apart rest) :
    lexemes? ("INSERT INTO ".toList ++ ((Insert.identifier table).toList ++ rest)) =
      (lexemes? rest).map
        ([.word "INSERT", .word "INTO", .name table] ++ ·) := by
  have hwords : ("INSERT INTO ".toList : List Char) =
      "INSERT".toList ++ ' ' :: ("INTO".toList ++ [' ']) := rfl
  rw [hwords, List.append_assoc, List.cons_append, List.append_assoc, List.singleton_append,
    lexemes?_capitals "INSERT" rfl rfl rfl,
    lexemes?_capitals "INTO" rfl rfl rfl, Insert.identifier, String.toList_ofList,
    lexemes?_delimit _ hr, String.ofList_toList]
  simp [Function.comp_def]

theorem lexemes?_returning (column : String) :
    lexemes? ("RETURNING ".toList ++ (Insert.identifier column).toList) =
      some [.word "RETURNING", .name column] := by
  have hwords : ("RETURNING ".toList : List Char) = "RETURNING".toList ++ [' '] := rfl
  have hname := lexemes?_delimit column.toList apart_nil
  rw [List.append_nil, String.ofList_toList, lexemes?] at hname
  rw [hwords, List.append_assoc, List.singleton_append,
    lexemes?_capitals "RETURNING" rfl rfl rfl, Insert.identifier,
    String.toList_ofList, hname]
  rfl

end words

theorem read?_defaults {i : Insert} (h : i.columns = []) :
    read? i.sql = some ⟨i.table, .defaults, i.returning⟩ := by
  have htext : i.sql.toList = "INSERT INTO ".toList ++ ((Insert.identifier i.table).toList ++
      ' ' :: ("DEFAULT".toList ++ ' ' :: ("VALUES".toList ++ ' ' ::
        ("RETURNING ".toList ++ (Insert.identifier i.returning).toList)))) := by
    simp [Insert.sql, h]
  rw [read?, htext, lexemes?_insertInto _ (apart_cons _ (by simp)), lexemes?_space,
    lexemes?_capitals "DEFAULT" rfl rfl rfl,
    lexemes?_capitals "VALUES" rfl rfl rfl, lexemes?_returning]
  rfl

theorem read?_listed {i : Insert} (h : i.columns ≠ []) :
    read? i.sql =
      some ⟨i.table, .listed i.columns (List.range' 1 i.columns.length), i.returning⟩ := by
  have hplaceholders : (List.range i.columns.length).map (fun n => Insert.placeholder (n + 1)) =
      (List.range' 1 i.columns.length).map Insert.placeholder := by
    rw [List.range'_eq_map_range, List.map_map]
    exact List.map_congr_left fun n _ => congrArg Insert.placeholder (Nat.add_comm n 1)
  have hnumbers : List.range' 1 i.columns.length ≠ [] := by simpa using h
  have hname (name : String) (rest : List Char) (hr : Apart rest) :
      lexemes? ((Insert.identifier name).toList ++ rest) =
        (lexemes? rest).map (.name name :: ·) := by
    rw [Insert.identifier, String.toList_ofList, lexemes?_delimit _ hr, String.ofList_toList]
  have htext : i.sql.toList = "INSERT INTO ".toList ++ ((Insert.identifier i.table).toList ++
      ' ' :: '(' :: ((Insert.commaSeparated (i.columns.map Insert.identifier)).toList ++
        ')' :: ' ' :: ("VALUES".toList ++ ' ' :: '(' ::
          ((Insert.commaSeparated ((List.range' 1 i.columns.length).map
              Insert.placeholder)).toList ++
            ')' :: ' ' :: ("RETURNING ".toList ++ (Insert.identifier i.returning).toList))))) := by
    simp [Insert.sql, h, hplaceholders]
  rw [read?, htext, lexemes?_insertInto _ (apart_cons _ (by simp)), lexemes?_space,
    lexemes?_mark (by simp [marks]), lexemes?_commaSeparated hname _ (apart_cons _ (by simp)),
    lexemes?_mark (by simp [marks]), lexemes?_space,
    lexemes?_capitals "VALUES" rfl rfl rfl, lexemes?_mark (by simp [marks]),
    lexemes?_commaSeparated (fun n _ => lexemes?_placeholder n) _ (apart_cons _ (by simp)),
    lexemes?_mark (by simp [marks]), lexemes?_space, lexemes?_returning]
  have hcolumns :=
    items?_listed (fun s => (rfl : Lexeme.name? (.name s) = some s)) h
  have hparameters :=
    items?_listed (fun n => (rfl : Lexeme.parameter? (.parameter n) = some n)) hnumbers
  simp [ofLexemes?, hcolumns, hparameters]

/-- The parameters are numbered from one, and there are none just if no column is listed. -/
def fillingOf (columns : List String) : Filling :=
  if columns = [] then .defaults else .listed columns (List.range' 1 columns.length)

theorem read?_sql (i : Insert) :
    read? i.sql = some ⟨i.table, fillingOf i.columns, i.returning⟩ := by
  unfold fillingOf
  split
  · exact read?_defaults ‹_›
  · exact read?_listed ‹_›

theorem fillingOf_inj {a b : List String} (h : fillingOf a = fillingOf b) : a = b := by
  unfold fillingOf at h
  split at h <;> split at h <;> simp_all

theorem sql_inj {i j : Insert} (h : i.sql = j.sql) : i = j := by
  have hr := (read?_sql i).symm.trans (h ▸ read?_sql j)
  simp only [Option.some.injEq, Reading.mk.injEq] at hr
  obtain ⟨htable, hfilling, hreturning⟩ := hr
  have hcolumns := fillingOf_inj hfilling
  cases i
  cases j
  simp_all

/-! ### The query for a row -/

def assigned (row : Value) : List (String × Value) :=
  (row.fields?.getD []).filter fun f => !f.2.isAbsent

/-- Each field that is set becomes a column with its own parameter, and nothing else does. -/
structure ReadsBack (table : String) (row : Value) (idColumn : String) (q : Query) : Prop where
  text : read? q.sql = some
    { table
      filling :=
        if assigned row = [] then .defaults
        else .listed ((assigned row).map Prod.fst) (List.range' 1 q.parameters.length)
      returning := idColumn }
  count : q.parameters.length = (assigned row).length
  parameters : q.parameters.map .ok = (assigned row).map fun f => f.2.parameter

variable {fields : List (String × Value)}

theorem exists_of_parameters {e : Failure}
    (h : (fields.mapM fun f => f.2.parameter.map (f.1, ·)) = .error e) :
    ∃ f ∈ fields, f.2.parameter = .error e := by
  induction fields with
  | nil => cases h
  | cons f fields ih =>
    rw [List.mapM_cons] at h
    rcases bind_eq_error.1 h with hf | ⟨g, -, h⟩
    · exact ⟨f, .head _, map_eq_error.1 hf⟩
    · rcases bind_eq_error.1 h with hr | ⟨gs, -, h⟩
      · exact (ih hr).imp fun f hf => ⟨.tail _ hf.1, hf.2⟩
      · cases h

theorem map_parameters {set : List (String × Value)}
    (h : (fields.mapM fun f => f.2.parameter.map (f.1, ·)) = .ok set) :
    set.map Prod.fst = fields.map Prod.fst ∧
      (set.map Prod.snd).map .ok = fields.map fun f => f.2.parameter := by
  induction fields generalizing set with
  | nil =>
    cases h
    exact ⟨rfl, rfl⟩
  | cons f fields ih =>
    rw [List.mapM_cons] at h
    obtain ⟨g, hg, h⟩ := bind_eq_ok.1 h
    obtain ⟨gs, hgs, h⟩ := bind_eq_ok.1 h
    obtain ⟨v, hv, rfl⟩ := map_eq_ok.1 hg
    cases h
    simp [ih hgs, hv]

theorem readsBack_of_parameters {table idColumn : String} {row : Value}
    {set : List (String × Value)}
    (h : ((assigned row).mapM fun f => f.2.parameter.map (f.1, ·)) = .ok set) :
    ReadsBack table row idColumn ⟨⟨table, set.map Prod.fst, idColumn⟩, set.map Prod.snd⟩ := by
  obtain ⟨hnames, hvalues⟩ := map_parameters h
  have hlength : set.length = (assigned row).length := by simpa using congrArg List.length hnames
  constructor
  · rw [Query.sql, read?_sql, fillingOf]
    simp [hnames, hlength]
  · simpa using hlength
  · exact hvalues

/-- A row either gives a query, or it has no fields at all, or one of its fields that are set can be
no parameter. -/
theorem insert_cases (table : String) (row : Value) (idColumn : String) :
    (row.fields? = none ∧ Query.insert table row idColumn = .error .noFields) ∨
    (row.fields? ≠ none ∧ ∃ f ∈ assigned row, ∃ e, f.2.parameter = .error e ∧
      Query.insert table row idColumn = .error e) ∨
    ∃ q, Query.insert table row idColumn = .ok q ∧ ReadsBack table row idColumn q ∧
      q.statement = ⟨table, (assigned row).map Prod.fst, idColumn⟩ := by
  unfold Query.insert
  cases hf : row.fields? with
  | none => simp
  | some fields =>
    have hparameters : Query.parametersOf fields =
        (assigned row).mapM fun f => f.2.parameter.map (f.1, ·) := by
      simp [Query.parametersOf, assigned, hf]
    simp only [hparameters]
    cases hp : (assigned row).mapM fun f => f.2.parameter.map (f.1, ·) with
    | error e =>
      obtain ⟨f, hf, he⟩ := exists_of_parameters hp
      exact .inr (.inl ⟨nofun, f, hf, e, he, rfl⟩)
    | ok set =>
      refine .inr (.inr ⟨_, rfl, readsBack_of_parameters hp, ?_⟩)
      rw [(map_parameters hp).1]

theorem readsBack_of_insert {table idColumn : String} {row : Value} {q : Query}
    (hq : Query.insert table row idColumn = .ok q) : ReadsBack table row idColumn q := by
  rcases insert_cases table row idColumn with ⟨-, h⟩ | ⟨-, _, _, _, _, h⟩ | ⟨q', h, hread, -⟩
  · cases hq.symm.trans h
  · cases hq.symm.trans h
  · cases hq.symm.trans h
    exact hread

/-- Whatever the names and the row, the statement of a query is read back as what it was made of:
the table, the names of the fields that are set in their order, one numbered placeholder for each of
them, whose parameter is that of the field, and the column of the identifier. So two queries have
one text only if all these names are the same. There is no query just if the row has no fields to
ask for, or if one that is set can be no parameter, and then the error is that of this field. -/
theorem insert_readBack (table idColumn : String) (row : Value) :
    (row.fields? = none ∧ Query.insert table row idColumn = .error .noFields) ∨
    (row.fields? ≠ none ∧ ∃ f ∈ assigned row, ∃ e, f.2.parameter = .error e ∧
      Query.insert table row idColumn = .error e) ∨
    ∃ q, Query.insert table row idColumn = .ok q ∧ ReadsBack table row idColumn q ∧
      ∀ table' row' idColumn' q', Query.insert table' row' idColumn' = .ok q' →
        (q.sql = q'.sql ↔ table = table' ∧
          (assigned row).map Prod.fst = (assigned row').map Prod.fst ∧ idColumn = idColumn') := by
  obtain h | h | ⟨q, hq, hread, hstatement⟩ := insert_cases table row idColumn
  · exact .inl h
  · exact .inr (.inl h)
  · refine .inr (.inr ⟨q, hq, hread, fun table' row' idColumn' q' hq' => ?_⟩)
    obtain ⟨-, h⟩ | ⟨-, _, _, _, _, h⟩ | ⟨q₁, h, -, hstatement'⟩ := insert_cases table' row' idColumn'
    · cases h.symm.trans hq'
    · cases h.symm.trans hq'
    · cases h.symm.trans hq'
      rw [Query.sql, Query.sql, hstatement, hstatement']
      constructor
      · intro heq
        simpa using sql_inj heq
      · rintro ⟨rfl, hnames, rfl⟩
        rw [hnames]

end Sql

end Seedbed
