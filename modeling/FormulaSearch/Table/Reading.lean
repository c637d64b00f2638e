import FormulaSearch.Number.Numeral
import FormulaSearch.Table.Basic
import FormulaSearch.Table.Records
import FormulaSearch.Text.Quoted

/-!
# Reading tables

Records of eight or nine fields are rows, and the first six fields of a row are numbers. Rows whose
numbers do not read are left out with a warning, so a partly damaged file still gives a table.
-/

namespace FormulaSearch

structure BadField where
  column : Nat
  text : String
  fault : NumeralFault
deriving DecidableEq

namespace Row

def readField (record : List String) (column : Nat) : Except BadField Binary64 :=
  let text := record.getD column ""
  (Binary64.read text.toList).mapError fun fault => ⟨column, text, fault⟩

/-- The row of a record, or its first field that is not a number. -/
def read (record : List String) : Except BadField Row := do
  let target ← readField record 0
  let a ← readField record 1
  let b ← readField record 2
  let c ← readField record 3
  let d ← readField record 4
  let spare ← readField record 5
  return .ofColumns target a b c d spare

end Row

namespace Table

inductive Warning where
  /-- Records are numbered from one, those that are no rows included. -/
  | badRow (number : Nat) (field : BadField)
  | rowsSkipped (count : Nat)
deriving DecidableEq

def Warning.message : Warning → String
  | badRow number field =>
    "skipping row " ++ toString number ++ ": field " ++ toString field.column ++
      " is not a number (" ++ Text.quote field.text.toList ++ ": " ++ field.fault.message ++ ")"
  | rowsSkipped count => toString count ++ " malformed row(s) skipped"

inductive Fault where
  | cannotRead
deriving DecidableEq

def Fault.message : Fault → String
  | cannotRead => "failed to read record"

def isRowLength (n : Nat) : Bool := n == 8 || n == 9

/-- The rows among some records and a warning for each bad one; the first record has the given
number. -/
def collect (number : Nat) : List (List String) → List Row × List Warning
  | [] => ([], [])
  | record :: rest =>
    let (rows, warnings) := collect (number + 1) rest
    if isRowLength record.length then
      match Row.read record with
      | .ok row => (row :: rows, warnings)
      | .error field => (rows, .badRow number field :: warnings)
    else (rows, warnings)

/-- The table of some records, with the warnings on the way. No table is made of an input that
breaks off. -/
def ofRecords (r : Records) : Except Fault Table × List Warning :=
  let (rows, warnings) := collect 1 r.records
  if r.brokeOff then (.error .cannotRead, warnings)
  else
    let skipped := warnings.length
    (.ok ⟨rows⟩, if skipped = 0 then warnings else warnings ++ [.rowsSkipped skipped])

end Table

end FormulaSearch
