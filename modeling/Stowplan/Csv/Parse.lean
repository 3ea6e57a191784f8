/-
  File:      Stowplan/Csv/Parse.lean
  Subject:   READING A CSV FILE (src/domain/csv-import.ts), code unit by code unit.

  The parser goes over the UTF-16 code units of a file with one of lookahead. It is in a field,
  between the quotes of a field, or behind the closing quote. A line break is LF, CR or CRLF.
-/
import Stowplan.Js.Text

namespace Stowplan.Csv

/-! ## 1. Code units -/

/-- A string as `value[index]` reads it. -/
abbrev CodeUnits := List UInt16

/-- The characters the parser asks for. -/
def quoteMark : UInt16 := 0x22
def comma : UInt16 := 0x2C
def space : UInt16 := 0x20
def tab : UInt16 := 0x9
def lineFeed : UInt16 := 0xA
def carriageReturn : UInt16 := 0xD
def byteOrderMark : UInt16 := 0xFEFF

/-- The first half of a surrogate pair. -/
def isHighSurrogate (c : UInt16) : Bool := 0xD800 ≤ c && c < 0xDC00

/-- The second half. -/
def isLowSurrogate (c : UInt16) : Bool := 0xDC00 ≤ c && c < 0xE000

/-- `new TextEncoder().encode(text).byteLength`: a surrogate without its other half is encoded as
    the replacement character. -/
def utf8Length : CodeUnits → Nat
  | [] => 0
  | [c] => unitLength c
  | c :: d :: rest =>
    if isHighSurrogate c && isLowSurrogate d then 4 + utf8Length rest
    else unitLength c + utf8Length (d :: rest)
where
  unitLength (c : UInt16) : Nat := if c < 0x80 then 1 else if c < 0x800 then 2 else 3

/-- A character that `trim` removes. None of them takes two code units. -/
def isSpaceUnit (c : UInt16) : Bool := isSpace (Char.ofNat c.toNat)

/-- `text.trim()`. -/
def trimUnits (text : CodeUnits) : CodeUnits :=
  ((text.dropWhile isSpaceUnit).reverse.dropWhile isSpaceUnit).reverse

/-! ## 2. Results and errors -/

/-- `CsvColumn`. -/
structure CsvColumn (τ : Type) where
  header : τ
  index : Nat
  deriving DecidableEq

/-- `CsvDataRow`. -/
structure CsvDataRow (τ : Type) where
  cells : List τ
  recordNumber : Nat
  deriving DecidableEq

/-- A file, with its texts in the type `τ`. -/
structure ParsedCsv (τ : Type) where
  blankRecordCount : Nat
  columns : List (CsvColumn τ)
  headerRecordNumber : Nat
  rows : List (CsvDataRow τ)
  deriving DecidableEq

/-- `CsvParseLimits`. -/
structure CsvParseLimits where
  cellCharacters : Nat
  columns : Nat
  dataRows : Nat
  fileBytes : Nat
  deriving DecidableEq

/-- `CsvParseErrorCode`. -/
inductive CsvParseErrorCode where
  | cellTooLarge
  | emptyFile
  | fileTooLarge
  | tooManyColumns
  | tooManyRows
  | trailingQuoteContent
  | unclosedQuote
  | unexpectedQuote
  deriving DecidableEq

/-- What `parseCsv` throws: an error about the file, or one about a limit it was given. -/
inductive CsvParseError where
  | file (code : CsvParseErrorCode) (message : String) (line column : Nat)
  | limit (message : String)
  deriving DecidableEq

/-- The limits a caller sets. -/
structure LimitOverrides where
  cellCharacters : Option JsNumber := none
  columns : Option JsNumber := none
  dataRows : Option JsNumber := none
  fileBytes : Option JsNumber := none

/-- `positiveLimit(value, name)`. -/
def positiveLimit (value : JsNumber) (name : String) : Except CsvParseError Nat :=
  if !value.isSafeInteger || JsNumber.lt value 1 then
    throw (.limit s!"{name} must be a positive safe integer")
  else return (value.toInt?.getD 0).toNat

/-- `DEFAULT_PARSE_LIMITS`. -/
def maxFileBytes : JsNumber := 4194304
def maxDataRows : JsNumber := 4000
def maxColumns : JsNumber := 64
def maxCellCharacters : JsNumber := 32768

/-- `parseLimits(overrides)`: each default checked like an override. -/
def parseLimits (overrides : LimitOverrides) : Except CsvParseError CsvParseLimits := do
  let cellCharacters ←
    positiveLimit (overrides.cellCharacters.getD maxCellCharacters) "CSV cell limit"
  let columns ← positiveLimit (overrides.columns.getD maxColumns) "CSV column limit"
  let dataRows ← positiveLimit (overrides.dataRows.getD maxDataRows) "CSV row limit"
  let fileBytes ← positiveLimit (overrides.fileBytes.getD maxFileBytes) "CSV file limit"
  return { cellCharacters, columns, dataRows, fileBytes }

/-! ## 3. The parser -/

/-- The variables of the loop. -/
structure Scan where
  afterQuote : Bool := false
  blankRecordCount : Nat := 0
  column : Nat := 1
  field : CodeUnits := []
  fieldWasQuoted : Bool := false
  header : Option (CsvDataRow CodeUnits) := none
  inQuotes : Bool := false
  line : Nat := 1
  recordNumber : Nat := 1
  row : List CodeUnits := []
  rows : List (CsvDataRow CodeUnits) := []

/-- `isNewline(character)`. -/
def isNewline (c : UInt16) : Bool := c == carriageReturn || c == lineFeed

/-- `newlineWidth(value, index) === 2`. -/
def widePair (c : UInt16) (next : Option UInt16) : Bool :=
  c == carriageReturn && next == some lineFeed

namespace Scan

variable (limits : CsvParseLimits) (s : Scan)

/-- `throw new CsvParseError(code, message, line, column)`, at the position of the scan. -/
def fail {α : Type} (code : CsvParseErrorCode) (message : String) : Except CsvParseError α :=
  throw (.file code message s.line s.column)

/-- `append(character)`. -/
def append (character : UInt16) : Except CsvParseError Scan := do
  let s := { s with field := s.field ++ [character] }
  if limits.cellCharacters < s.field.length then
    s.fail .cellTooLarge s!"CSV cell exceeds the {limits.cellCharacters}-character limit"
  else return s

/-- `finishField()`. -/
def finishField : Except CsvParseError Scan := do
  if limits.columns ≤ s.row.length then
    s.fail .tooManyColumns s!"CSV record exceeds the {limits.columns}-column limit"
  else return { s with
    row := s.row ++ [s.field]
    field := []
    fieldWasQuoted := false
    afterQuote := false }

/-- The record is blank, it is the header, or it is a row. -/
def finishRecord : Except CsvParseError Scan := do
  let s ← s.finishField limits
  let record : CsvDataRow CodeUnits := ⟨s.row, s.recordNumber⟩
  let s ←
    if record.cells.all fun cell => (trimUnits cell).isEmpty then
      pure { s with blankRecordCount := s.blankRecordCount + 1 }
    else if s.header.isNone then pure { s with header := some record }
    else
      let s := { s with rows := s.rows ++ [record] }
      if limits.dataRows < s.rows.length then
        s.fail .tooManyRows s!"CSV file exceeds the {limits.dataRows}-row limit"
      else pure s
  return { s with row := [], recordNumber := s.recordNumber + 1 }

/-- `column += width`. -/
def advance (width : Nat) : Scan := { s with column := s.column + width }

/-- The start of the next line. -/
def advanceNewline : Scan := { s with line := s.line + 1, column := 1 }

/-- One turn of the loop, on a character and the one behind it. It tells whether the turn takes
    both. -/
def step (character : UInt16) (next : Option UInt16) : Except CsvParseError (Scan × Bool) := do
  if s.inQuotes then
    if character = quoteMark then
      if next = some quoteMark then
        let s ← s.append limits quoteMark
        return (s.advance 2, true)
      else return ({ s with inQuotes := false, afterQuote := true }.advance 1, false)
    else if isNewline character then
      let s ← s.append limits lineFeed
      return (s.advanceNewline, widePair character next)
    else
      let s ← s.append limits character
      return (s.advance 1, false)
  else if s.afterQuote then
    if character = space || character = tab then return (s.advance 1, false)
    else if character = comma then
      let s ← s.finishField limits
      return (s.advance 1, false)
    else if isNewline character then
      let s ← s.finishRecord limits
      return (s.advanceNewline, widePair character next)
    else s.fail .trailingQuoteContent "CSV field has content after its closing quote"
  else if character = quoteMark then
    if s.field.isEmpty then
      return ({ s with inQuotes := true, fieldWasQuoted := true }.advance 1, false)
    else s.fail .unexpectedQuote "CSV quote must begin a field"
  else if character = comma then
    let s ← s.finishField limits
    return (s.advance 1, false)
  else if isNewline character then
    let s ← s.finishRecord limits
    return (s.advanceNewline, widePair character next)
  else
    let s ← s.append limits character
    return (s.advance 1, false)

/-- The loop over what is left of the file. -/
def run (s : Scan) : CodeUnits → Except CsvParseError Scan
  | [] => return s
  | [c] => do
    let (s, _) ← s.step limits c none
    return s
  | c :: d :: rest => do
    let (s, both) ← s.step limits c (some d)
    if both then s.run rest else s.run (d :: rest)

/-- What is done at the end of the file. -/
def finish : Except CsvParseError (ParsedCsv CodeUnits) := do
  if s.inQuotes then s.fail .unclosedQuote "CSV field has an unclosed quote"
  else
    let s ←
      if !s.row.isEmpty || !s.field.isEmpty || s.fieldWasQuoted || s.afterQuote then
        s.finishRecord limits
      else pure s
    match s.header with
    | none => s.fail .emptyFile "CSV file needs a non-blank header record"
    | some header => return {
        blankRecordCount := s.blankRecordCount
        columns := header.cells.mapIdx fun index cell => ⟨trimUnits cell, index⟩
        headerRecordNumber := header.recordNumber
        rows := s.rows }

end Scan

/-- `input.startsWith("\ufeff") ? input.slice(1) : input`. -/
def withoutMark : CodeUnits → CodeUnits
  | c :: rest => if c = byteOrderMark then rest else c :: rest
  | [] => []

/-- `parseCsv(input, limitOverrides)`. -/
def parseCsv (input : CodeUnits) (limitOverrides : LimitOverrides) :
    Except CsvParseError (ParsedCsv CodeUnits) := do
  let limits ← parseLimits limitOverrides
  if limits.fileBytes < utf8Length input then
    throw (.file .fileTooLarge s!"CSV file exceeds the {limits.fileBytes}-byte limit" 1 1)
  else
    let s ← Scan.run limits {} (withoutMark input)
    s.finish limits

end Stowplan.Csv
