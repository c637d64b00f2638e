import FormulaSearch.Table.Reading
import Mathlib.Tactic

/-!
# What becomes of the records

Every record of eight or nine fields either gives a row or a warning, and the other records give
nothing. The rows and the warnings come in the order of the records. An input that breaks off gives
the warnings up to there and no table.
-/

namespace FormulaSearch

/-! ## Fields -/

def ReadsAs (text : String) (x : Binary64) : Prop := Binary64.read text.toList = .ok x

def isNumeral (text : String) : Bool := (Binary64.read text.toList).isOk

theorem isNumeral_iff {text : String} : isNumeral text = true ↔ ∃ x, ReadsAs text x := by
  unfold isNumeral ReadsAs
  cases Binary64.read text.toList <;> simp [Except.isOk, Except.toBool]

theorem isNumeral_of_error {text : String} {fault : NumeralFault}
    (h : Binary64.read text.toList = .error fault) : isNumeral text = false := by
  rw [isNumeral, h]
  rfl

namespace Row

/-- The field is the first one of a record, or of what is left of it from the given column on, that
is no number. -/
structure FirstBad (column : Nat) (texts : List String) (field : BadField) : Prop where
  column_le : column ≤ field.column
  text : texts[field.column - column]? = some field.text
  fault : Binary64.read field.text.toList = .error field.fault
  before : ∀ text ∈ texts.take (field.column - column), isNumeral text = true

/-- Reads fields up to the first one that is not a number; the first field is in the given
column. -/
def readFields (column : Nat) : List String → Except BadField (List Binary64)
  | [] => return []
  | text :: rest => do
    let x ← (Binary64.read text.toList).mapError fun fault => ⟨column, text, fault⟩
    let xs ← readFields (column + 1) rest
    return x :: xs

theorem map_toList_read {record : List String} (h : 6 ≤ record.length) :
    toList <$> read record = readFields 0 (record.take 6) := by
  obtain ⟨a, b, c, d, e, f, rest, rfl⟩ : ∃ a b c d e f rest,
      record = a :: b :: c :: d :: e :: f :: rest := by
    match record, h with
    | a :: b :: c :: d :: e :: f :: rest, _ => exact ⟨a, b, c, d, e, f, rest, rfl⟩
  simp [read, readField, readFields, toList, ofColumns]

theorem readFields_cases (column : Nat) (texts : List String) :
    (∃ xs, readFields column texts = .ok xs ∧ List.Forall₂ ReadsAs texts xs) ∨
      ∃ field, readFields column texts = .error field ∧ FirstBad column texts field := by
  induction texts generalizing column with
  | nil => exact .inl ⟨[], rfl, .nil⟩
  | cons text rest ih =>
    cases htext : Binary64.read text.toList with
    | error fault =>
      refine .inr ⟨⟨column, text, fault⟩, ?_, ?_⟩
      · rw [readFields, htext]
        rfl
      · constructor <;> simp [htext]
    | ok x =>
      rcases ih (column + 1) with ⟨xs, hxs, hreads⟩ | ⟨field, hfield, hbad⟩
      · refine .inl ⟨x :: xs, ?_, .cons htext hreads⟩
        rw [readFields, htext, hxs]
        rfl
      · refine .inr ⟨field, ?_, ?_⟩
        · rw [readFields, htext, hfield]
          rfl
        · have hlt : column + 1 ≤ field.column := hbad.column_le
          obtain ⟨k, hk⟩ : ∃ k, field.column = column + 1 + k := ⟨_, (Nat.add_sub_of_le hlt).symm⟩
          have hindex : field.column - column = k + 1 := by omega
          have hindex' : field.column - (column + 1) = k := by omega
          constructor
          · omega
          · rw [hindex, List.getElem?_cons_succ, ← hindex']
            exact hbad.text
          · exact hbad.fault
          · rw [hindex, List.take_succ_cons, List.forall_mem_cons, ← hindex']
            exact ⟨isNumeral_iff.mpr ⟨x, htext⟩, hbad.before⟩

/-! ## Records -/

/-- The record has the length of a row, and its first six fields are the numbers of the row. -/
structure Spells (record : List String) (row : Row) : Prop where
  length : record.length = 8 ∨ record.length = 9
  numbers : List.Forall₂ ReadsAs (record.take 6) row.toList

/-- The record has the length of a row, but the field is no number. It is the first such field. -/
structure SpoiledBy (record : List String) (field : BadField) : Prop where
  length : record.length = 8 ∨ record.length = 9
  column_lt : field.column < 6
  text : record[field.column]? = some field.text
  fault : Binary64.read field.text.toList = .error field.fault
  before : ∀ text ∈ record.take field.column, isNumeral text = true

/-- Eight or nine fields, the first six of which are numbers. -/
def isReadable (record : List String) : Bool :=
  Table.isRowLength record.length && (record.take 6).all isNumeral

/-- Eight or nine fields, the first six of which are not all numbers. -/
def isSpoiled (record : List String) : Bool :=
  Table.isRowLength record.length && !(record.take 6).all isNumeral

theorem FirstBad.spoiledBy {record : List String} {field : BadField}
    (h : FirstBad 0 (record.take 6) field) (hlength : record.length = 8 ∨ record.length = 9) :
    SpoiledBy record field := by
  obtain ⟨-, htext, hfault, hbefore⟩ := h
  rw [Nat.sub_zero] at htext hbefore
  rw [List.getElem?_take, Option.ite_none_right_eq_some] at htext
  obtain ⟨hlt, htext⟩ := htext
  rw [List.take_take, Nat.min_eq_left hlt.le] at hbefore
  exact ⟨hlength, hlt, htext, hfault, hbefore⟩

/-- A record with the length of a row gives a row, or else its first field that is no number. -/
theorem read_cases {record : List String} (h : Table.isRowLength record.length = true) :
    (∃ row, read record = .ok row ∧ Spells record row ∧ (record.take 6).all isNumeral = true) ∨
      ∃ field, read record = .error field ∧ SpoiledBy record field ∧
        (record.take 6).all isNumeral = false := by
  have hlength : record.length = 8 ∨ record.length = 9 := by simpa [Table.isRowLength] using h
  have hread : toList <$> read record = readFields 0 (record.take 6) :=
    map_toList_read (by omega)
  rcases readFields_cases 0 (record.take 6) with ⟨xs, hxs, hreads⟩ | ⟨field, hfield, hbad⟩
  · left
    rw [hxs] at hread
    cases hrow : read record with
    | error field =>
      rw [hrow] at hread
      cases hread
    | ok row =>
      rw [hrow] at hread
      obtain rfl : row.toList = xs := Except.ok.inj hread
      have hnumerals := hreads.imp fun text x hx => And.intro (isNumeral_iff.mpr ⟨x, hx⟩) hx
      exact ⟨row, rfl, ⟨hlength, hreads⟩,
        List.all_eq_true.mpr ((List.forall₂_and_left _ _).mp hnumerals).1⟩
  · right
    rw [hfield] at hread
    cases hrow : read record with
    | ok row =>
      rw [hrow] at hread
      cases hread
    | error field' =>
      rw [hrow] at hread
      obtain rfl : field' = field := Except.error.inj hread
      refine ⟨field', rfl, hbad.spoiledBy hlength, List.all_eq_false.mpr ⟨field'.text, ?_, ?_⟩⟩
      · exact List.mem_of_getElem? hbad.text
      · rw [isNumeral_of_error hbad.fault]
        decide

theorem Spells.target {record : List String} {row : Row} (h : Spells record row) :
    ReadsAs (record.getD 0 "") row.target := by
  obtain ⟨hlength, hnumbers⟩ := h
  match record, hlength, hnumbers with
  | text :: rest, _, .cons htarget _ => exact htarget

end Row

namespace Table

/-! ## Tables -/

/-- The warning names the record's number and the first of its fields that is no number. -/
def WarnsOf (numbered : List String × Nat) (w : Warning) : Prop :=
  ∃ field, w = .badRow numbered.2 field ∧ Row.SpoiledBy numbered.1 field

/-- The rows among some records come from those that are readable and the warnings from those that
are spoiled, in the same order. -/
theorem collect_accounts (number : Nat) (records : List (List String)) :
    List.Forall₂ Row.Spells (records.filter Row.isReadable) (collect number records).1 ∧
      List.Forall₂ WarnsOf ((records.zipIdx number).filter fun r => Row.isSpoiled r.1)
        (collect number records).2 := by
  induction records generalizing number with
  | nil => exact ⟨.nil, .nil⟩
  | cons record rest ih =>
    obtain ⟨hrows, hwarnings⟩ := ih (number + 1)
    rw [List.zipIdx_cons, List.filter_cons, List.filter_cons]
    cases hlength : isRowLength record.length with
    | false =>
      simp only [Row.isReadable, Row.isSpoiled, collect, hlength]
      exact ⟨hrows, hwarnings⟩
    | true =>
      rcases Row.read_cases hlength with
        ⟨row, hread, hspells, hall⟩ | ⟨field, hread, hspoiled, hall⟩
      · simp only [Row.isReadable, Row.isSpoiled, collect, hlength, hread, hall]
        exact ⟨.cons hspells hrows, hwarnings⟩
      · simp only [Row.isReadable, Row.isSpoiled, collect, hlength, hread, hall]
        exact ⟨hrows, .cons ⟨field, rfl, hspoiled⟩ hwarnings⟩

/-- A table has the rows of the readable records, and the targets that their first fields spell.
There is one warning for each spoiled record, with its number among all records, and behind them
their count, unless there are none. Where reading breaks off, there is no table, and the warnings
are those of the records before. -/
theorem ofRecords_accounts (records : List (List String)) :
    ∃ (table : Table) (warnings : List Warning),
      ofRecords ⟨records, false⟩ = (.ok table,
        warnings ++ if warnings.length = 0 then [] else [.rowsSkipped warnings.length]) ∧
      ofRecords ⟨records, true⟩ = (.error .cannotRead, warnings) ∧
      List.Forall₂ Row.Spells (records.filter Row.isReadable) table.rows ∧
      List.Forall₂ (fun record x => ReadsAs (record.getD 0 "") x)
        (records.filter Row.isReadable) table.targets ∧
      List.Forall₂ WarnsOf (records.zipIdx 1 |>.filter fun r => Row.isSpoiled r.1) warnings := by
  obtain ⟨hrows, hwarnings⟩ := collect_accounts 1 records
  refine ⟨⟨(collect 1 records).1⟩, (collect 1 records).2, ?_, rfl, hrows, ?_, hwarnings⟩
  · rw [ofRecords]
    simp only [Bool.false_eq_true, if_false]
    split <;> simp
  · rw [targets, List.forall₂_map_right_iff]
    exact hrows.imp fun record row h => h.target

/-- Records that are no rows are counted. -/
example : (ofRecords ⟨[["1"], ["0.8", "1", "oops", "3", "4", "5", "x", "y"]], false⟩).2.map
    Warning.message = ["skipping row 2: field 2 is not a number (\"oops\": invalid float literal)",
      "1 malformed row(s) skipped"] := by
  decide +kernel

end Table

end FormulaSearch
