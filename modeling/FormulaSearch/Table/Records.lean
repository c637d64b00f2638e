import FormulaSearch.Text.Blank

/-!
# Delimited records

A row file is cut into records at line ends and into fields at commas. A line end is a carriage
return or a line feed, and empty lines are no records. A quote that opens a field makes commas and
line ends part of it up to the closing quote; a doubled quote inside stands for one, and what
follows the closing quote is taken as it is.
-/

namespace FormulaSearch

/-- Where in a record the next byte stands. -/
inductive RecordPlace where
  | recordStart
  | fieldStart
  | plain
  | quoted
  | quoteSeen
deriving DecidableEq

/-- Fields and records are collected with the newest first, and so are the bytes of a field. -/
structure RecordSplitter where
  place : RecordPlace := .recordStart
  field : List UInt8 := []
  fields : List (List UInt8) := []
  records : List (List (List UInt8)) := []

namespace RecordSplitter

def comma : UInt8 := 44

def quote : UInt8 := 34

def isLineEnd (b : UInt8) : Bool := b == 10 || b == 13

def push (s : RecordSplitter) (b : UInt8) (place : RecordPlace) : RecordSplitter :=
  { s with field := b :: s.field, place }

def endField (s : RecordSplitter) : RecordSplitter :=
  { s with field := [], fields := s.field.reverse :: s.fields, place := .fieldStart }

def endRecord (s : RecordSplitter) : RecordSplitter :=
  { place := .recordStart
    records := (s.field.reverse :: s.fields).reverse :: s.records }

/-- A byte of a field that is not, or no longer, quoted. -/
def unquoted (s : RecordSplitter) (b : UInt8) : RecordSplitter :=
  if b = comma then s.endField
  else if isLineEnd b then s.endRecord
  else s.push b .plain

def step (s : RecordSplitter) (b : UInt8) : RecordSplitter :=
  match s.place with
  | .recordStart =>
    if isLineEnd b then s
    else if b = quote then { s with place := .quoted }
    else s.unquoted b
  | .fieldStart => if b = quote then { s with place := .quoted } else s.unquoted b
  | .plain => s.unquoted b
  | .quoted => if b = quote then { s with place := .quoteSeen } else s.push b .quoted
  | .quoteSeen => if b = quote then s.push b .quoted else s.unquoted b

/-- The end of the input ends a record that has begun, even inside quotes. -/
def finish (s : RecordSplitter) : RecordSplitter :=
  if s.place = .recordStart then s else s.endRecord

end RecordSplitter

/-- Records of trimmed fields in the order of the input, and whether reading broke off after
them. -/
structure Records where
  records : List (List String)
  brokeOff : Bool
deriving DecidableEq

namespace Records

def mark : List UInt8 := [0xEF, 0xBB, 0xBF]

/-- The input without one byte order mark at its start. -/
def dropMark : List UInt8 → List UInt8
  | 0xEF :: 0xBB :: 0xBF :: rest => rest
  | bytes => bytes

/-- A field as trimmed text, unless its bytes are not UTF-8. -/
def decodeField (bytes : List UInt8) : Option String :=
  (String.fromUTF8? ⟨bytes.toArray⟩).map fun s => String.ofList (Text.trim s.toList)

/-- Decodes records up to the first one that is not text. -/
def decode (brokeOff : Bool) : List (List (List UInt8)) → Records
  | [] => ⟨[], brokeOff⟩
  | fields :: rest =>
    match fields.mapM decodeField with
    | none => ⟨[], true⟩
    | some record =>
      let r := decode brokeOff rest
      { r with records := record :: r.records }

/-- The records of an input. If the input breaks off after its last byte, the record that is not
yet ended is lost. An input that is a lone mark has ended with it and does not break off. -/
def ofBytes (bytes : List UInt8) (breaksOff : Bool := false) : Records :=
  let s := (dropMark bytes).foldl RecordSplitter.step {}
  if breaksOff && bytes != mark then decode true s.records.reverse
  else decode false s.finish.records.reverse

end Records

end FormulaSearch
