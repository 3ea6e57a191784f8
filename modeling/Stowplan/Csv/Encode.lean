/-
  File:      Stowplan/Csv/Encode.lean
  Subject:   READING UNDOES WRITING. A table of cells as a CSV file, and back.

  A file is a table with what its writer chose: the quotes of each cell, the line break of each
  record, a byte-order mark, a last line break. Most choices are read back as the same table.
  Three are not, since two tables are written as the same file: a record of one empty cell without
  quotes between a CR and an LF, the same at the end without a line break, and a file that begins
  with a mark that belongs to a cell.

  * `run_cell`, `run_cells`: what the parser has read behind a cell, and behind a record;
  * `run_records`: the records of a file, by induction on them;
  * `parseCsv_encode`: the file as it is read.
-/
import Stowplan.Csv.Parse

namespace Stowplan.Csv

/-! ## 1. Writing a file -/

/-- A text that needs no quotes. -/
def isPlain (text : CodeUnits) : Bool :=
  text.all fun c => c != quoteMark && c != comma && !isNewline c

/-- A cell as a file writes it; one that is not quoted has only plain characters. -/
structure Cell where
  text : CodeUnits
  quoted : Bool
  plain : quoted = true ∨ isPlain text = true

/-- A quote within quotes is written twice. -/
def escape : CodeUnits → CodeUnits
  | [] => []
  | c :: text => if c = quoteMark then c :: c :: escape text else c :: escape text

/-- The characters of a cell, quote marks doubled where it is quoted. -/
def Cell.encode (cell : Cell) : CodeUnits :=
  if cell.quoted then quoteMark :: (escape cell.text ++ [quoteMark]) else cell.text

/-- The three line breaks a file may use. -/
inductive LineBreak where
  | lf
  | cr
  | crlf
  deriving DecidableEq

/-- The characters of a line break. -/
def LineBreak.encode : LineBreak → CodeUnits
  | .lf => [lineFeed]
  | .cr => [carriageReturn]
  | .crlf => [carriageReturn, lineFeed]

/-- A record: at least one cell, and the line break after it. -/
structure Record where
  first : Cell
  others : List Cell
  lineBreak : LineBreak

/-- All its cells. -/
def Record.cells (r : Record) : List Cell := r.first :: r.others

/-- The cells with commas between them. -/
def encodeCells (first : Cell) : List Cell → CodeUnits
  | [] => first.encode
  | cell :: others => first.encode ++ comma :: encodeCells cell others

/-- A file: a byte order mark or none, its records, and whether the last one has its line break. -/
structure CsvFile where
  mark : Bool
  records : List Record
  finalBreak : Bool

/-- The records one after another. -/
def encodeRecords (finalBreak : Bool) : List Record → CodeUnits
  | [] => []
  | [r] => encodeCells r.first r.others ++ if finalBreak then r.lineBreak.encode else []
  | r :: r' :: records =>
    encodeCells r.first r.others ++ (r.lineBreak.encode ++ encodeRecords finalBreak (r' :: records))

/-- The characters of the whole file. -/
def CsvFile.encode (file : CsvFile) : CodeUnits :=
  (if file.mark then [byteOrderMark] else []) ++ encodeRecords file.finalBreak file.records

/-! ## 2. What is read of it -/

/-- Line breaks inside a cell are read as LF. -/
def normalizeBreaks : CodeUnits → CodeUnits
  | [] => []
  | [c] => [if isNewline c then lineFeed else c]
  | c :: d :: text =>
    if widePair c (some d) then lineFeed :: normalizeBreaks text
    else (if isNewline c then lineFeed else c) :: normalizeBreaks (d :: text)

/-- The texts of a record, with line breaks as the parser writes them. -/
def Record.texts (r : Record) : List CodeUnits := r.cells.map fun cell => normalizeBreaks cell.text

/-- Cells with nothing but blanks. -/
def blankCells (cells : List CodeUnits) : Bool := cells.all fun cell => (trimUnits cell).isEmpty

/-- The records with their positions in the file. -/
def numberFrom (n : Nat) : List Record → List (CsvDataRow CodeUnits)
  | [] => []
  | r :: records => ⟨r.texts, n⟩ :: numberFrom (n + 1) records

/-- The blank records of a file. -/
def CsvFile.blankCount (file : CsvFile) : Nat :=
  file.records.countP fun r => blankCells r.texts

/-- The records that are not blank, counted from `n`. -/
def filledFrom (n : Nat) (records : List Record) : List (CsvDataRow CodeUnits) :=
  (numberFrom n records).filter fun row => !blankCells row.cells

/-- The header, and the rows. -/
def CsvFile.filled (file : CsvFile) : List (CsvDataRow CodeUnits) := filledFrom 1 file.records

/-- Nothing is written of the record. -/
def Record.bare (r : Record) : Bool :=
  r.others.isEmpty && !r.first.quoted && r.first.text.isEmpty

/-- No other table is written as this one: a CR and an LF with nothing in between are one line
    break, and nothing after the last line break is no record. -/
def readable (finalBreak : Bool) : List Record → Bool
  | [] => true
  | [r] => finalBreak || !r.bare
  | r :: r' :: records =>
    !(r.lineBreak = .cr && r'.bare && r'.lineBreak = .lf) && readable finalBreak (r' :: records)

/-- The same, and the file begins with a mark only where it is marked. -/
def CsvFile.Readable (file : CsvFile) : Prop :=
  readable file.finalBreak file.records = true ∧
    (file.mark = true ∨ (encodeRecords file.finalBreak file.records).head? ≠ some byteOrderMark)

/-- The file is within the limits of the parser. -/
structure CsvFile.Within (limits : CsvParseLimits) (file : CsvFile) : Prop where
  bytes : utf8Length file.encode ≤ limits.fileBytes
  columns : ∀ r ∈ file.records, r.cells.length ≤ limits.columns
  cells : ∀ r ∈ file.records, ∀ text ∈ r.texts, text.length ≤ limits.cellCharacters
  rows : file.filled.length ≤ limits.dataRows + 1

/-! ## 3. Cells -/

section Cells

variable {limits : CsvParseLimits} {s : Scan} {c : UInt16} {rest : CodeUnits}

theorem run_cons : s.run limits (c :: rest) = (s.step limits c rest.head?).bind fun p =>
    p.1.run limits (if p.2 then rest.tail else rest) := by
  cases rest with
  | nil =>
      show (s.step limits c none).bind _ = (s.step limits c none).bind _
      congr 1
      funext p
      show Except.ok p.1 = p.1.run limits (if p.2 then [] else [])
      rw [ite_self]
      rfl
  | cons d rest =>
      show (s.step limits c (some d)).bind _ = (s.step limits c (some d)).bind _
      congr 1
      funext p
      cases hp : p.2 <;> simp [hp]

theorem run_step {t : Scan} (h : s.step limits c rest.head? = .ok (t, false)) :
    s.run limits (c :: rest) = t.run limits rest := by
  rw [run_cons, h]
  rfl

theorem run_step_both {t : Scan} {d : UInt16} (h : s.step limits c (some d) = .ok (t, true)) :
    s.run limits (c :: d :: rest) = t.run limits rest := by
  rw [run_cons, List.head?_cons, h]
  rfl

theorem append_ok (h : s.field.length < limits.cellCharacters) :
    s.append limits c = .ok { s with field := s.field ++ [c] } := by
  unfold Scan.append
  rw [if_neg]
  · rfl
  · simp only [List.length_append, List.length_singleton]
    omega

/-- The parser is neither between quotes nor behind them. -/
structure Scan.InField (s : Scan) : Prop where
  inQuotes : ¬ s.inQuotes = true
  afterQuote : ¬ s.afterQuote = true

variable (limits rest) in
/-- **A cell without quotes** is read as it is written. -/
theorem run_plain {text : CodeUnits} (hs : s.InField) (htext : isPlain text = true)
    (hlen : s.field.length + text.length ≤ limits.cellCharacters) : ∃ column,
    s.run limits (text ++ rest) =
      { s with field := s.field ++ text, column }.run limits rest := by
  induction text generalizing s with
  | nil => exact ⟨s.column, by simp⟩
  | cons c text ih =>
      simp only [isPlain, List.all_cons, Bool.and_eq_true, bne_iff_ne, ne_eq,
        Bool.not_eq_true'] at htext
      obtain ⟨⟨⟨hquote, hcomma⟩, hnewline⟩, htext⟩ := htext
      rw [List.length_cons] at hlen
      have hstep : s.step limits c (text ++ rest).head? =
          .ok ({ s with field := s.field ++ [c] }.advance 1, false) := by
        unfold Scan.step
        rw [if_neg hs.inQuotes, if_neg hs.afterQuote, if_neg hquote, if_neg hcomma,
          if_neg (by rw [hnewline]; simp), append_ok (by omega)]
        rfl
      obtain ⟨column, hrun⟩ := ih (s := { s with field := s.field ++ [c] }.advance 1)
        ⟨hs.inQuotes, hs.afterQuote⟩ htext (by
          simp only [Scan.advance, List.length_append, List.length_singleton]
          omega)
      refine ⟨column, ?_⟩
      rw [List.cons_append, run_step hstep, hrun]
      simp [Scan.advance]

theorem head_escape (text : CodeUnits) (d : UInt16) :
    (escape (d :: text) ++ rest).head? = some d := by
  unfold escape
  split <;> rfl

variable (limits) in
/-- A line break or any other character but a quote, within quotes. -/
theorem step_inQuotes (hs : s.inQuotes = true) (hquote : c ≠ quoteMark) (next : Option UInt16)
    (hlen : s.field.length < limits.cellCharacters) : ∃ line column,
    s.step limits c next = .ok ({ s with
      field := s.field ++ [if isNewline c then lineFeed else c], line, column },
        widePair c next) := by
  unfold Scan.step
  rw [if_pos hs, if_neg hquote]
  by_cases hnewline : isNewline c = true
  · rw [if_pos hnewline, if_pos hnewline, append_ok hlen]
    exact ⟨s.line + 1, 1, rfl⟩
  · have hwide : widePair c next = false := by
      unfold isNewline at hnewline
      unfold widePair
      rw [Bool.or_eq_true, not_or, Bool.not_eq_true] at hnewline
      rw [hnewline.1, Bool.false_and]
    rw [if_neg hnewline, if_neg hnewline, append_ok hlen, hwide]
    exact ⟨s.line, s.column + 1, rfl⟩

variable (limits) in
/-- One character of a cell in quotes, where the next one is no part of its line break. -/
theorem run_quotedUnit {text : CodeUnits} (hs : s.inQuotes = true)
    (hwide : widePair c (escape text ++ rest).head? = false)
    (hlen : s.field.length < limits.cellCharacters) : ∃ line column,
    s.run limits (escape (c :: text) ++ rest) = { s with
      field := s.field ++ [if isNewline c then lineFeed else c], line, column }.run limits
        (escape text ++ rest) := by
  by_cases hquote : c = quoteMark
  · have hstep : s.step limits c (some c) =
        .ok ({ s with field := s.field ++ [c] }.advance 2, true) := by
      unfold Scan.step
      rw [if_pos hs, if_pos hquote, if_pos (hquote ▸ rfl), ← hquote, append_ok hlen]
      rfl
    have hnewline : ¬ isNewline c = true := by
      rw [hquote]
      decide
    refine ⟨s.line, s.column + 2, ?_⟩
    rw [escape, if_pos hquote, if_neg hnewline]
    exact run_step_both hstep
  · obtain ⟨line, column, hstep⟩ := step_inQuotes limits hs hquote
      (escape text ++ rest).head? hlen
    rw [hwide] at hstep
    refine ⟨line, column, ?_⟩
    rw [escape, if_neg hquote]
    exact run_step hstep

theorem run_close (hs : s.inQuotes = true) (hrest : rest.head? ≠ some quoteMark) :
    s.run limits (quoteMark :: rest) = { s with
      inQuotes := false, afterQuote := true, column := s.column + 1 }.run limits rest := by
  refine run_step ?_
  unfold Scan.step
  rw [if_pos hs, if_pos rfl, if_neg hrest]
  rfl

theorem widePair_iff {c d : UInt16} :
    widePair c (some d) = true ↔ c = carriageReturn ∧ d = lineFeed := by
  simp [widePair]

variable (limits) in
/-- **A cell in quotes**, from the opening quote to the closing one. -/
theorem run_quoted (text : CodeUnits) (hs : s.inQuotes = true)
    (hrest : rest.head? ≠ some quoteMark)
    (hlen : s.field.length + (normalizeBreaks text).length ≤ limits.cellCharacters) :
    ∃ line column, s.run limits (escape text ++ quoteMark :: rest) = { s with
      field := s.field ++ normalizeBreaks text
      inQuotes := false
      afterQuote := true
      line
      column }.run limits rest := by
  induction text using normalizeBreaks.induct generalizing s with
  | case1 =>
      refine ⟨s.line, s.column + 1, ?_⟩
      rw [escape, List.nil_append, run_close hs hrest, normalizeBreaks, List.append_nil]
  | case2 c =>
      rw [normalizeBreaks, List.length_singleton] at hlen
      have hwide : widePair c (escape [] ++ quoteMark :: rest).head? = false := by
        rw [Bool.eq_false_iff, ne_eq]
        exact fun h => absurd (widePair_iff.mp h).2 (by decide)
      obtain ⟨line, column, hrun⟩ := run_quotedUnit limits hs hwide (by omega)
      refine ⟨line, column + 1, hrun.trans ?_⟩
      rw [escape, List.nil_append, normalizeBreaks]
      exact run_close hs hrest
  | case3 c d text hwide ih =>
      rw [normalizeBreaks, if_pos hwide] at hlen ⊢
      rw [List.length_cons] at hlen
      obtain ⟨rfl, rfl⟩ := widePair_iff.mp hwide
      obtain ⟨line, column, hstep⟩ := step_inQuotes limits (c := carriageReturn) hs
        (by decide) (some lineFeed) (by omega)
      obtain ⟨line', column', hrun⟩ := ih (s := { s with
        field := s.field ++ [lineFeed], line, column }) hs (by
          simp only [List.length_append, List.length_singleton]
          omega)
      refine ⟨line', column', (run_step_both hstep).trans (hrun.trans ?_)⟩
      simp
  | case4 c d text hwide ih =>
      rw [normalizeBreaks, if_neg hwide] at hlen ⊢
      rw [List.length_cons] at hlen
      have hwide : widePair c (escape (d :: text) ++ quoteMark :: rest).head? = false := by
        rw [head_escape]
        simpa using hwide
      obtain ⟨line, column, hrun⟩ := run_quotedUnit limits hs hwide (by omega)
      obtain ⟨line', column', hrest'⟩ := ih (s := { s with
        field := s.field ++ [if isNewline c then lineFeed else c], line, column }) hs (by
          simp only [List.length_append, List.length_singleton]
          omega)
      refine ⟨line', column', hrun.trans (hrest'.trans ?_)⟩
      simp

/-- Texts without line breaks are read as they are. -/
theorem normalizeBreaks_plain {text : CodeUnits} (h : isPlain text = true) :
    normalizeBreaks text = text := by
  induction text using normalizeBreaks.induct with
  | case1 => rfl
  | case2 c =>
      simp only [isPlain, List.all_cons, Bool.and_eq_true, Bool.not_eq_true'] at h
      simp [normalizeBreaks, h.1.2]
  | case3 c d text hwide ih =>
      simp only [isPlain, List.all_cons, Bool.and_eq_true, Bool.not_eq_true'] at h
      obtain ⟨rfl, -⟩ := widePair_iff.mp hwide
      exact absurd h.1.2 (by decide)
  | case4 c d text hwide ih =>
      have hd : isPlain (d :: text) = true := by
        simp only [isPlain, List.all_cons, Bool.and_eq_true] at h ⊢
        exact h.2
      simp only [isPlain, List.all_cons, Bool.and_eq_true, Bool.not_eq_true'] at h
      rw [normalizeBreaks, if_neg hwide, ih hd]
      simp [h.1.2]

/-- Nothing is read of the field yet. -/
structure Scan.AtField (s : Scan) : Prop extends s.InField where
  field : s.field = []
  fieldWasQuoted : s.fieldWasQuoted = false

variable (limits) in
/-- **A cell**, from the beginning of its field. -/
theorem run_cell {cell : Cell} (hs : s.AtField) (hrest : rest.head? ≠ some quoteMark)
    (hlen : (normalizeBreaks cell.text).length ≤ limits.cellCharacters) :
    ∃ line column, s.run limits (cell.encode ++ rest) = { s with
      field := normalizeBreaks cell.text
      fieldWasQuoted := cell.quoted
      afterQuote := cell.quoted
      line
      column }.run limits rest := by
  unfold Cell.encode
  by_cases hquote : cell.quoted = true
  · have hopen : s.step limits quoteMark (escape cell.text ++ [quoteMark] ++ rest).head? =
        .ok ({ s with inQuotes := true, fieldWasQuoted := true }.advance 1, false) := by
      unfold Scan.step
      rw [if_neg hs.inQuotes, if_neg hs.afterQuote, if_pos rfl, hs.field]
      rfl
    obtain ⟨line, column, hrun⟩ := run_quoted limits cell.text
      (s := { s with inQuotes := true, fieldWasQuoted := true }.advance 1) rfl hrest (by
        simpa [Scan.advance, hs.field] using hlen)
    refine ⟨line, column, ?_⟩
    rw [if_pos hquote, List.cons_append, run_step hopen, List.append_assoc]
    refine hrun.trans ?_
    rw [hquote]
    have hq := Bool.eq_false_iff.mpr hs.inQuotes
    simp [Scan.advance, hs.field, hq]
  · have hplain := cell.plain.resolve_left hquote
    rw [normalizeBreaks_plain hplain] at hlen ⊢
    obtain ⟨column, hrun⟩ := run_plain limits rest hs.toInField hplain (by
      simpa [hs.field] using hlen)
    refine ⟨s.line, column, ?_⟩
    rw [if_neg hquote, hrun, Bool.eq_false_iff.mpr hquote, hs.field, List.nil_append,
      hs.fieldWasQuoted, Bool.eq_false_iff.mpr hs.afterQuote]

theorem finishField_ok (h : s.row.length < limits.columns) : s.finishField limits = .ok { s with
    row := s.row ++ [s.field], field := [], fieldWasQuoted := false, afterQuote := false } := by
  unfold Scan.finishField
  rw [if_neg (by omega)]
  rfl

theorem comma_head (rest : CodeUnits) : (comma :: rest).head? ≠ some quoteMark :=
  fun h => absurd (Option.some.inj h) (by decide)

variable (limits rest) in
theorem run_comma (hs : ¬ s.inQuotes = true) (h : s.row.length < limits.columns) :
    s.run limits (comma :: rest) = { s with
      row := s.row ++ [s.field]
      field := []
      fieldWasQuoted := false
      afterQuote := false
      column := s.column + 1 }.run limits rest := by
  refine run_step ?_
  unfold Scan.step
  rw [if_neg hs]
  by_cases hafter : s.afterQuote = true
  · rw [if_pos hafter, if_neg (by decide), if_pos rfl, finishField_ok h]
    rfl
  · rw [if_neg hafter, if_neg (by decide), if_pos rfl, finishField_ok h]
    rfl

end Cells

/-! ## 4. Records -/

/-- What the parser knows of the records it has read. -/
structure Reading where
  blankRecordCount : Nat
  header : Option (CsvDataRow CodeUnits)
  recordNumber : Nat
  rows : List (CsvDataRow CodeUnits)

/-- What a scan has read so far. -/
def Scan.reading (s : Scan) : Reading :=
  ⟨s.blankRecordCount, s.header, s.recordNumber, s.rows⟩

/-- One more record. -/
def Reading.take (g : Reading) (cells : List CodeUnits) : Reading :=
  if blankCells cells then
    { g with blankRecordCount := g.blankRecordCount + 1, recordNumber := g.recordNumber + 1 }
  else if g.header.isNone then
    { g with header := some ⟨cells, g.recordNumber⟩, recordNumber := g.recordNumber + 1 }
  else { g with
    rows := g.rows ++ [⟨cells, g.recordNumber⟩], recordNumber := g.recordNumber + 1 }

/-- There is a record that is not finished. -/
def Scan.pending (s : Scan) : Bool :=
  !s.row.isEmpty || !s.field.isEmpty || s.fieldWasQuoted || s.afterQuote

/-- The cells of a record are read, the last one is still in its field. -/
structure Scan.Holds (limits : CsvParseLimits) (g : Reading) (cells : List CodeUnits) (s : Scan) :
    Prop where
  inQuotes : ¬ s.inQuotes = true
  reading : s.reading = g
  columns : s.row.length < limits.columns
  cells : s.row ++ [s.field] = cells

section Records

variable {limits : CsvParseLimits} {s : Scan} {g : Reading} {rest : CodeUnits} {first : Cell}
  {others : List Cell} {cells : List CodeUnits}

theorem normalizeBreaks_eq_nil {text : CodeUnits} (h : normalizeBreaks text = []) : text = [] := by
  cases text using normalizeBreaks.fun_cases with
  | case1 => rfl
  | case2 c => simp [normalizeBreaks] at h
  | case3 c d text hwide => simp [normalizeBreaks, hwide] at h
  | case4 c d text hwide => simp [normalizeBreaks, hwide] at h

/-- **The cells of a record**, from the beginning of a field. -/
theorem run_cells (hs : s.AtField) (hrest : rest.head? ≠ some quoteMark)
    (hcolumns : s.row.length + others.length < limits.columns)
    (hlen : ∀ cell ∈ first :: others,
      (normalizeBreaks cell.text).length ≤ limits.cellCharacters) :
    ∃ t : Scan, s.run limits (encodeCells first others ++ rest) = t.run limits rest ∧
      t.Holds limits s.reading
        (s.row ++ (first :: others).map fun cell => normalizeBreaks cell.text) ∧
      (t.pending = false → others = [] ∧ first.quoted = false ∧ first.text = []) := by
  induction others generalizing first s with
  | nil =>
      obtain ⟨line, column, hrun⟩ := run_cell limits hs hrest (hlen first List.mem_cons_self)
      refine ⟨_, hrun, ⟨hs.inQuotes, rfl, hcolumns, rfl⟩, fun hpending => ?_⟩
      simp only [Scan.pending, Bool.or_eq_false_iff, Bool.not_eq_false', List.isEmpty_iff]
        at hpending
      exact ⟨rfl, hpending.2, normalizeBreaks_eq_nil hpending.1.1.2⟩
  | cons cell others ih =>
      rw [List.length_cons] at hcolumns
      obtain ⟨line, column, hrun⟩ := run_cell limits hs
        (comma_head (encodeCells cell others ++ rest)) (hlen first List.mem_cons_self)
      have hcomma := run_comma limits (encodeCells cell others ++ rest)
        (s := { s with
          field := normalizeBreaks first.text
          fieldWasQuoted := first.quoted
          afterQuote := first.quoted
          line
          column }) hs.inQuotes (by show s.row.length < _; omega)
      have hlen' : ∀ q ∈ cell :: others,
          (normalizeBreaks q.text).length ≤ limits.cellCharacters :=
        fun q hq => hlen q (List.mem_cons_of_mem _ hq)
      obtain ⟨t, hrest, hholds, hpending⟩ := ih (s := { s with
          row := s.row ++ [normalizeBreaks first.text]
          field := []
          fieldWasQuoted := false
          afterQuote := false
          line
          column := column + 1 }) ⟨⟨hs.inQuotes, Bool.false_ne_true⟩, rfl, rfl⟩
        (by
          simp only [List.length_append, List.length_singleton]
          omega) hlen'
      refine ⟨t, ?_, ?_, fun h => ?_⟩
      · rw [encodeCells, List.append_assoc]
        exact hrun.trans (hcomma.trans hrest)
      · refine ⟨hholds.inQuotes, hholds.reading, hholds.columns, hholds.cells.trans ?_⟩
        simp
      · -- two cells leave the first one in the row
        simp only [Scan.pending, Bool.or_eq_false_iff, Bool.not_eq_false', List.isEmpty_iff] at h
        have hcells := congrArg List.length hholds.cells
        simp only [h.1.1.1, List.nil_append, List.length_append, List.length_map,
          List.length_cons] at hcells
        omega

/-- **The end of a record.** -/
theorem finishRecord_ok (hs : s.Holds limits g cells)
    (hrows : (g.take cells).rows.length ≤ limits.dataRows) :
    ∃ t, s.finishRecord limits = .ok t ∧ t.AtField ∧ t.row = [] ∧ t.reading = g.take cells := by
  obtain ⟨hquotes, rfl, hcolumns, rfl⟩ := hs
  unfold Scan.finishRecord
  rw [finishField_ok hcolumns]
  unfold Reading.take at *
  dsimp only [bind, Except.bind, pure, Except.pure]
  by_cases hblank : blankCells (s.row ++ [s.field]) = true
  · rw [if_pos hblank]
    refine ⟨_, if_pos hblank, ?_⟩
    exact ⟨⟨⟨hquotes, Bool.false_ne_true⟩, rfl, rfl⟩, rfl, rfl⟩
  · rw [if_neg hblank] at hrows ⊢
    by_cases hheader : s.header.isNone = true
    · rw [if_pos (show s.reading.header.isNone = true from hheader)]
      refine ⟨_, (if_neg hblank).trans (if_pos hheader), ?_⟩
      exact ⟨⟨⟨hquotes, Bool.false_ne_true⟩, rfl, rfl⟩, rfl, rfl⟩
    · rw [if_neg (show ¬ s.reading.header.isNone = true from hheader)] at hrows ⊢
      refine ⟨_, (if_neg hblank).trans ((if_neg hheader).trans (if_neg (Nat.not_lt.mpr hrows))), ?_⟩
      exact ⟨⟨⟨hquotes, Bool.false_ne_true⟩, rfl, rfl⟩, rfl, rfl⟩

/-- **A line break** ends the record. A CR takes an LF behind it along. -/
theorem run_lineBreak {lineBreak : LineBreak} {t : Scan} (hs : ¬ s.inQuotes = true)
    (ht : s.finishRecord limits = .ok t)
    (hrest : lineBreak = .cr → rest.head? ≠ some lineFeed) :
    s.run limits (lineBreak.encode ++ rest) = t.advanceNewline.run limits rest := by
  have hstep : ∀ c next, isNewline c = true →
      s.step limits c next = .ok (t.advanceNewline, widePair c next) := by
    intro c next hc
    have hother : c ≠ space ∧ c ≠ tab ∧ c ≠ comma ∧ c ≠ quoteMark := by
      refine ⟨?_, ?_, ?_, ?_⟩ <;> rintro rfl <;> exact absurd hc (by decide)
    unfold Scan.step
    rw [if_neg hs]
    by_cases hafter : s.afterQuote = true
    · rw [if_pos hafter, if_neg (by simp [hother]), if_neg hother.2.2.1, if_pos hc, ht]
      rfl
    · rw [if_neg hafter, if_neg hother.2.2.2, if_neg hother.2.2.1, if_pos hc, ht]
      rfl
  cases lineBreak with
  | lf => exact run_step (hstep lineFeed _ (by decide))
  | cr =>
      refine run_step ((hstep carriageReturn _ (by decide)).trans ?_)
      cases rest with
      | nil => rfl
      | cons c rest =>
          have hwide : widePair carriageReturn (some c) = false := by
            rw [Bool.eq_false_iff, ne_eq, widePair_iff]
            exact fun h => hrest rfl (congrArg some h.2)
          exact congrArg (fun both => Except.ok (t.advanceNewline, both)) hwide
  | crlf => exact run_step_both (hstep carriageReturn (some lineFeed) (by decide))

theorem head_encode (h : (first.encode ++ rest).head? = some lineFeed) :
    first.quoted = false ∧ first.text = [] ∧ rest.head? = some lineFeed := by
  unfold Cell.encode at h
  by_cases hquoted : first.quoted = true
  · rw [if_pos hquoted] at h
    exact absurd (Option.some.inj h) (by decide)
  · rw [if_neg hquoted] at h
    have hplain := first.plain.resolve_left hquoted
    cases htext : first.text with
    | nil =>
        rw [htext] at h
        exact ⟨Bool.eq_false_iff.mpr hquoted, rfl, h⟩
    | cons c text =>
        rw [htext] at h hplain
        obtain rfl : c = lineFeed := Option.some.inj h
        simp only [isPlain, List.all_cons, Bool.and_eq_true] at hplain
        exact absurd hplain.1.2 (by decide)

/-- A record whose text begins with an LF has no text. -/
theorem head_encodeCells (h : (encodeCells first others ++ rest).head? = some lineFeed) :
    others = [] ∧ first.quoted = false ∧ first.text = [] ∧ rest.head? = some lineFeed := by
  cases others with
  | nil =>
      obtain ⟨hquoted, htext, hrest⟩ := head_encode h
      exact ⟨rfl, hquoted, htext, hrest⟩
  | cons cell others =>
      rw [encodeCells, List.append_assoc] at h
      obtain ⟨-, -, hrest⟩ := head_encode h
      exact absurd (Option.some.inj hrest) (by decide)

theorem bare_iff {r : Record} :
    r.bare = true ↔ r.others = [] ∧ r.first.quoted = false ∧ r.first.text = [] := by
  simp [Record.bare, and_assoc]

theorem head_lineBreak {lineBreak : LineBreak}
    (h : (lineBreak.encode ++ rest).head? = some lineFeed) : lineBreak = .lf := by
  cases lineBreak with
  | lf => rfl
  | cr => exact absurd (Option.some.inj h) (by decide)
  | crlf => exact absurd (Option.some.inj h) (by decide)

/-- Records begin with an LF only where the first one has no text, and ends with it. -/
theorem head_encodeRecords {finalBreak : Bool} {r : Record} {records : List Record}
    (h : (encodeRecords finalBreak (r :: records)).head? = some lineFeed) :
    r.bare = true ∧ r.lineBreak = .lf := by
  cases records with
  | nil =>
      obtain ⟨hothers, hquoted, htext, hrest⟩ := head_encodeCells h
      refine ⟨bare_iff.mpr ⟨hothers, hquoted, htext⟩, ?_⟩
      cases finalBreak with
      | false => cases hrest
      | true =>
          rw [if_pos rfl, ← List.append_nil r.lineBreak.encode] at hrest
          exact head_lineBreak hrest
  | cons r' records =>
      obtain ⟨hothers, hquoted, htext, hrest⟩ := head_encodeCells h
      exact ⟨bare_iff.mpr ⟨hothers, hquoted, htext⟩, head_lineBreak hrest⟩

/-- What is known of the file is what it is read as. -/
def Reading.parsed (g : Reading) (header : CsvDataRow CodeUnits) : ParsedCsv CodeUnits where
  blankRecordCount := g.blankRecordCount
  columns := header.cells.mapIdx fun index cell => ⟨trimUnits cell, index⟩
  headerRecordNumber := header.recordNumber
  rows := g.rows

/-- **The end of the file**, after a record or within one. -/
theorem finish_ok {t : Scan} {header : CsvDataRow CodeUnits} (hs : ¬ s.inQuotes = true)
    (hpending : if s.pending then s.finishRecord limits = .ok t else t = s)
    (hheader : t.reading.header = some header) :
    s.finish limits = .ok (t.reading.parsed header) := by
  have hheader : t.header = some header := hheader
  unfold Scan.finish
  rw [if_neg hs]
  dsimp only [bind, Except.bind, pure, Except.pure]
  by_cases hp : s.pending = true
  · rw [if_pos hp] at hpending
    refine (if_pos hp).trans ?_
    rw [hpending]
    dsimp only
    rw [hheader]
    rfl
  · rw [if_neg hp] at hpending
    refine (if_neg hp).trans ?_
    rw [← hpending, hheader]
    rfl

theorem AtField.not_pending (hs : s.AtField) (hrow : s.row = []) : s.pending = false := by
  unfold Scan.pending
  rw [hrow, hs.field, hs.fieldWasQuoted, Bool.eq_false_iff.mpr hs.afterQuote]
  rfl

/-- The records of a file, one after the other. -/
def Reading.takeAll (g : Reading) (records : List Record) : Reading :=
  records.foldl (fun g r => g.take r.texts) g

theorem Reading.rows_take (g : Reading) (cells : List CodeUnits) :
    g.rows.length ≤ (g.take cells).rows.length := by
  unfold Reading.take
  split
  · exact le_rfl
  · split
    · exact le_rfl
    · simp

theorem Reading.rows_takeAll (g : Reading) (records : List Record) :
    g.rows.length ≤ (g.takeAll records).rows.length := by
  induction records generalizing g with
  | nil => exact le_rfl
  | cons r records ih => exact (g.rows_take r.texts).trans (ih _)

variable (rest) in
/-- The cells of a record, from its beginning. -/
theorem run_record {r : Record} (hs : s.AtField) (hrow : s.row = [])
    (hrest : rest.head? ≠ some quoteMark) (hcolumns : r.cells.length ≤ limits.columns)
    (hlen : ∀ text ∈ r.texts, text.length ≤ limits.cellCharacters)
    (hrows : (s.reading.take r.texts).rows.length ≤ limits.dataRows) :
    ∃ t u : Scan, s.run limits (encodeCells r.first r.others ++ rest) = t.run limits rest ∧
      ¬ t.inQuotes = true ∧ (t.pending = false → r.bare = true) ∧
      t.finishRecord limits = .ok u ∧ u.AtField ∧ u.row = [] ∧
      u.reading = s.reading.take r.texts := by
  rw [Record.cells, List.length_cons] at hcolumns
  have hcell : ∀ cell ∈ r.first :: r.others,
      (normalizeBreaks cell.text).length ≤ limits.cellCharacters :=
    fun cell hcell => hlen _ (List.mem_map_of_mem hcell)
  obtain ⟨t, hrun, hholds, hpending⟩ := run_cells hs hrest
    (by rw [hrow, List.length_nil]; omega) hcell
  rw [hrow, List.nil_append] at hholds
  obtain ⟨u, hfinish, hu⟩ := finishRecord_ok hholds hrows
  exact ⟨t, u, hrun, hholds.inQuotes, fun h => bare_iff.mpr (hpending h), hfinish, hu⟩

theorem lineBreak_head (lineBreak : LineBreak) (rest : CodeUnits) :
    (lineBreak.encode ++ rest).head? ≠ some quoteMark := by
  intro h
  cases lineBreak <;> exact absurd (Option.some.inj h) (by decide)

/-- **The records of a file**, by induction on them. -/
theorem run_records {finalBreak : Bool} {records : List Record} {header : CsvDataRow CodeUnits}
    (hs : s.AtField) (hrow : s.row = []) (hreadable : readable finalBreak records = true)
    (hcolumns : ∀ r ∈ records, r.cells.length ≤ limits.columns)
    (hlen : ∀ r ∈ records, ∀ text ∈ r.texts, text.length ≤ limits.cellCharacters)
    (hrows : (s.reading.takeAll records).rows.length ≤ limits.dataRows)
    (hheader : (s.reading.takeAll records).header = some header) :
    ((s.run limits (encodeRecords finalBreak records)).bind fun t => t.finish limits) =
      .ok ((s.reading.takeAll records).parsed header) := by
  induction records using readable.induct generalizing s with
  | case1 => exact finish_ok hs.inQuotes (by rw [AtField.not_pending hs hrow]; rfl) hheader
  | case2 r =>
      have hrecord := fun rest hrest => run_record rest hs hrow hrest
        (hcolumns r List.mem_cons_self) (hlen r List.mem_cons_self) hrows
      rw [encodeRecords]
      cases finalBreak with
      | true =>
          obtain ⟨t, u, hrun, hquotes, -, hfinish, hu, hurow, hreading⟩ :=
            hrecord _ (lineBreak_head r.lineBreak [])
          rw [List.append_nil] at hrun
          have hbreak : t.run limits (r.lineBreak.encode ++ []) = u.advanceNewline.run limits [] :=
            run_lineBreak hquotes hfinish fun _ => nofun
          rw [List.append_nil] at hbreak
          rw [if_pos rfl, hrun, hbreak]
          have hpending := AtField.not_pending (s := u.advanceNewline)
            ⟨⟨hu.inQuotes, hu.afterQuote⟩, hu.field, hu.fieldWasQuoted⟩ hurow
          refine (finish_ok (s := u.advanceNewline) (t := u.advanceNewline) hu.inQuotes (by rw [hpending]; rfl)
            ((congrArg _ hreading).trans hheader)).trans ?_
          exact congrArg (fun g => Except.ok (Reading.parsed g header)) hreading
      | false =>
          obtain ⟨t, u, hrun, hquotes, hbare, hfinish, hu, hurow, hreading⟩ := hrecord [] nofun
          have hpending : t.pending = true := by
            by_contra h
            rw [readable, hbare (Bool.not_eq_true _ ▸ h)] at hreadable
            cases hreadable
          rw [if_neg Bool.false_ne_true, hrun]
          refine (finish_ok hquotes (by rw [if_pos hpending]; exact hfinish)
            ((congrArg _ hreading).trans hheader)).trans ?_
          exact congrArg (fun g => Except.ok (Reading.parsed g header)) hreading
  | case3 r r' records ih =>
      rw [readable, Bool.and_eq_true] at hreadable
      obtain ⟨t, u, hrun, hquotes, -, hfinish, hu, hurow, hreading⟩ := run_record _ hs hrow
        (lineBreak_head r.lineBreak (encodeRecords finalBreak (r' :: records)))
        (hcolumns r List.mem_cons_self) (hlen r List.mem_cons_self)
        ((Reading.rows_takeAll _ (r' :: records)).trans hrows)
      have hbreak : t.run limits (r.lineBreak.encode ++ encodeRecords finalBreak (r' :: records)) =
          u.advanceNewline.run limits (encodeRecords finalBreak (r' :: records)) :=
        run_lineBreak hquotes hfinish fun hcr hlf => by
          obtain ⟨hbare, hbreak⟩ := head_encodeRecords hlf
          rw [hcr, hbare, hbreak] at hreadable
          exact absurd hreadable.1 (by decide)
      have hreading' : u.advanceNewline.reading = s.reading.take r.texts := hreading
      have htaken : u.advanceNewline.reading.takeAll (r' :: records) =
          s.reading.takeAll (r :: r' :: records) := by rw [hreading']; rfl
      rw [encodeRecords, hrun, hbreak, ← htaken]
      exact ih ⟨⟨hu.inQuotes, hu.afterQuote⟩, hu.field, hu.fieldWasQuoted⟩ hurow hreadable.2
        (fun q hq => hcolumns q (List.mem_cons_of_mem _ hq))
        (fun q hq => hlen q (List.mem_cons_of_mem _ hq)) (htaken ▸ hrows) (htaken ▸ hheader)

/-! ## 5. Rows -/

theorem filledFrom_cons (n : Nat) (r : Record) (records : List Record) :
    filledFrom n (r :: records) =
      if blankCells r.texts then filledFrom (n + 1) records
      else ⟨r.texts, n⟩ :: filledFrom (n + 1) records := by
  unfold filledFrom
  rw [numberFrom, List.filter_cons]
  by_cases h : blankCells r.texts = true
  · simp [h]
  · simp [h]

theorem takeAll_blank (records : List Record) : (g.takeAll records).blankRecordCount =
    g.blankRecordCount + records.countP fun r => blankCells r.texts := by
  induction records generalizing g with
  | nil => rfl
  | cons r records ih =>
      have hone : (g.take r.texts).blankRecordCount =
          g.blankRecordCount + if blankCells r.texts then 1 else 0 := by
        unfold Reading.take
        split
        · rfl
        · split <;> rfl
      refine (ih (g := g.take r.texts)).trans ?_
      rw [hone, List.countP_cons]
      omega

/-- Behind the header every record that is not blank is a row. -/
theorem takeAll_rows {header : CsvDataRow CodeUnits} (records : List Record)
    (hg : g.header = some header) : (g.takeAll records).header = some header ∧
      (g.takeAll records).rows = g.rows ++ filledFrom g.recordNumber records := by
  induction records generalizing g with
  | nil => exact ⟨hg, (List.append_nil _).symm⟩
  | cons r records ih =>
      have htaken : (g.take r.texts).header = some header ∧
          (g.take r.texts).recordNumber = g.recordNumber + 1 ∧ (g.take r.texts).rows = g.rows ++
            if blankCells r.texts then [] else [⟨r.texts, g.recordNumber⟩] := by
        unfold Reading.take
        by_cases h : blankCells r.texts = true
        · simp [h, hg]
        · simp [h, hg]
      obtain ⟨hheader, hrows⟩ := ih htaken.1
      refine ⟨hheader, hrows.trans ?_⟩
      rw [htaken.2.2, htaken.2.1, filledFrom_cons, List.append_assoc]
      split <;> rfl

/-- The first record that is not blank is the header, the others are the rows. -/
theorem takeAll_header {header : CsvDataRow CodeUnits} {rows : List (CsvDataRow CodeUnits)}
    {records : List Record} (hg : g.header = none) (hrows : g.rows = [])
    (h : filledFrom g.recordNumber records = header :: rows) :
    (g.takeAll records).header = some header ∧ (g.takeAll records).rows = rows := by
  induction records generalizing g with
  | nil => cases h
  | cons r records ih =>
      rw [filledFrom_cons] at h
      by_cases hblank : blankCells r.texts = true
      · rw [if_pos hblank] at h
        have htake : g.take r.texts = { g with
            blankRecordCount := g.blankRecordCount + 1, recordNumber := g.recordNumber + 1 } :=
          if_pos hblank
        show ((g.take r.texts).takeAll records).header = _ ∧ _
        rw [show g.takeAll (r :: records) = (g.take r.texts).takeAll records from rfl, htake]
        exact ih hg hrows h
      · rw [if_neg hblank] at h
        obtain ⟨rfl, rfl⟩ := List.cons.inj h
        have htake : g.take r.texts = { g with
            header := some ⟨r.texts, g.recordNumber⟩, recordNumber := g.recordNumber + 1 } := by
          unfold Reading.take
          rw [if_neg hblank, if_pos (by rw [hg]; rfl)]
        obtain ⟨hheader, hrest⟩ := takeAll_rows records (g := g.take r.texts) (by rw [htake])
        refine ⟨hheader, hrest.trans ?_⟩
        rw [htake]
        simp [hrows]

end Records

/-! ## 6. The file -/

section Files

variable {overrides : LimitOverrides} {limits : CsvParseLimits} {file : CsvFile}
  {header : CsvDataRow CodeUnits} {rows : List (CsvDataRow CodeUnits)}

theorem withoutMark_encode (h : file.mark = true ∨
    (encodeRecords file.finalBreak file.records).head? ≠ some byteOrderMark) :
    withoutMark file.encode = encodeRecords file.finalBreak file.records := by
  unfold CsvFile.encode
  by_cases hmark : file.mark = true
  · rw [if_pos hmark, List.singleton_append, withoutMark, if_pos rfl]
  · rw [if_neg hmark, List.nil_append]
    replace h := h.resolve_left hmark
    cases hrecords : encodeRecords file.finalBreak file.records with
    | nil => rfl
    | cons c rest =>
        rw [hrecords] at h
        exact if_neg fun hc => h (congrArg some hc)

/-- **READING UNDOES WRITING**: a file within the limits of the parser is read as the table it was
    written from, its line breaks inside cells as LF and the header trimmed, with the blank
    records counted and every other record at its position. -/
theorem parseCsv_encode (hlimits : parseLimits overrides = .ok limits)
    (hwithin : file.Within limits) (hreadable : file.Readable)
    (hfilled : file.filled = header :: rows) :
    parseCsv file.encode overrides = .ok {
      blankRecordCount := file.blankCount
      columns := header.cells.mapIdx fun index cell => ⟨trimUnits cell, index⟩
      headerRecordNumber := header.recordNumber
      rows } := by
  have hlen : rows.length ≤ limits.dataRows := by
    have := hwithin.rows
    rw [hfilled, List.length_cons] at this
    omega
  have hrecords := takeAll_header (g := Scan.reading {}) rfl rfl hfilled
  have hstart : Scan.AtField {} := ⟨⟨Bool.false_ne_true, Bool.false_ne_true⟩, rfl, rfl⟩
  have hrun := run_records hstart rfl hreadable.1 hwithin.columns hwithin.cells
    (hrecords.2 ▸ hlen) hrecords.1
  unfold parseCsv
  rw [hlimits]
  dsimp only [bind, Except.bind]
  rw [if_neg (Nat.not_lt.mpr hwithin.bytes), withoutMark_encode hreadable.2]
  refine hrun.trans (congrArg Except.ok ?_)
  unfold Reading.parsed
  rw [hrecords.2, takeAll_blank]
  simp [Scan.reading, CsvFile.blankCount]

instance instDecidableEqExcept {ε α : Type} [DecidableEq ε] [DecidableEq α] :
    DecidableEq (Except ε α)
  | .error a, .error b => decidable_of_iff (a = b) ⟨congrArg _, Except.error.inj⟩
  | .ok a, .ok b => decidable_of_iff (a = b) ⟨congrArg _, Except.ok.inj⟩
  | .error _, .ok _ => isFalse fun h => by cases h
  | .ok _, .error _ => isFalse fun h => by cases h

/-- A cell that is written without quotes where it can be. -/
def plainCell (text : CodeUnits) : Cell :=
  if h : isPlain text = true then ⟨text, false, .inr h⟩ else ⟨text, true, .inl rfl⟩

/-- The code units of a text of the basic plane. -/
def units (text : String) : CodeUnits := text.toList.map fun c => c.toNat.toUInt16

/-- A record with one plain cell. -/
def oneCell (text : String) (lineBreak : LineBreak) : Record :=
  ⟨plainCell (units text), [], lineBreak⟩

/-- A marked file: a header with a quoted cell, a blank record, a row with a line break in it. -/
def pantryFile : CsvFile where
  mark := true
  records := [⟨plainCell (units "Name"), [⟨units "Qty", true, .inl rfl⟩], .crlf⟩, oneCell " " .cr,
    ⟨plainCell (units "Rice, brown\r\n\"best\""), [plainCell (units "2")], .lf⟩]
  finalBreak := false

theorem parseCsv_encode_pantry : parseCsv pantryFile.encode {} = .ok {
    blankRecordCount := 1
    columns := [⟨units "Name", 0⟩, ⟨units "Qty", 1⟩]
    headerRecordNumber := 1
    rows := [⟨[units "Rice, brown\n\"best\"", units "2"], 3⟩] } := by
  have hlimits : parseLimits {} = .ok ⟨32768, 64, 4000, 4194304⟩ := by decide +kernel
  have hfilled : pantryFile.filled = ⟨[units "Name", units "Qty"], 1⟩ ::
      [⟨[units "Rice, brown\n\"best\"", units "2"], 3⟩] := by decide +kernel
  have hread := parseCsv_encode hlimits
    ⟨by decide +kernel, by decide +kernel, by decide +kernel, by decide +kernel⟩
    ⟨by decide +kernel, by decide +kernel⟩ hfilled
  rw [hread]
  decide +kernel

/-- A blank record between a CR and an LF. -/
def crossedFile : CsvFile where
  mark := false
  records := [oneCell "a" .cr, oneCell "" .lf, oneCell "b" .lf]
  finalBreak := true

/-- The blank record of `crossedFile` is not seen, and the row behind it is counted as the second
    record. Neither is a last record without text; a mark at the beginning of a cell is lost, a
    header is trimmed, and there has to be one. -/
theorem parseCsv_misreads :
    (crossedFile.Within ⟨32768, 64, 4000, 4194304⟩ ∧ crossedFile.blankCount = 1 ∧
      crossedFile.filled = [⟨[units "a"], 1⟩, ⟨[units "b"], 3⟩] ∧
      parseCsv crossedFile.encode {} = .ok ⟨0, [⟨units "a", 0⟩], 1, [⟨[units "b"], 2⟩]⟩) ∧
    (parseCsv (CsvFile.encode ⟨false, [oneCell "a" .lf, oneCell "" .lf], false⟩)
      {} = .ok ⟨0, [⟨units "a", 0⟩], 1, []⟩) ∧
    (parseCsv (CsvFile.encode ⟨false, [⟨plainCell (byteOrderMark :: units "a"), [], .lf⟩], true⟩)
      {} = .ok ⟨0, [⟨units "a", 0⟩], 1, []⟩) ∧
    (parseCsv (CsvFile.encode ⟨false, [oneCell " a" .lf], true⟩)
      {} = .ok ⟨0, [⟨units "a", 0⟩], 1, []⟩) ∧
    (parseCsv (CsvFile.encode ⟨false, [oneCell " " .lf], true⟩)
      {} = .error (.file .emptyFile "CSV file needs a non-blank header record" 2 1)) := by
  refine ⟨⟨⟨?_, ?_, ?_, ?_⟩, ?_⟩, ?_⟩
  all_goals decide +kernel

end Files

end Stowplan.Csv
