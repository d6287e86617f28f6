import Mathlib.Data.List.TakeWhile
import TimeSeries.Csv.Row
import TimeSeries.Proofs.Text.Trim

/-!
# Printed rows are read back

`printRows` writes rows one below the other, with quotes around the cells that need them; a row
without cells is a blank line. `rows_printRows` says that the reader gets the same cells back, in
the same order, and which line it has reached behind each row. The number of that line is what blank
lines are found by, so it is stated for both ends of lines: behind a carriage return the line feed
still waits to be read with the next row.

A cell ends where a comma or a terminator stands, and there the reader does the same thing in every
place but between quotes. So `readRow_printCell` is stated for any continuation that ends a cell.
-/

namespace TimeSeries.Csv

def isSpecial (b : UInt8) : Bool := b == comma || b == quoteMark || isTerminator b

/-- The bytes of a cell between quotes: a quote is written twice. -/
def doubled (cell : List UInt8) : List UInt8 :=
  cell.flatMap fun b => if b = quoteMark then [b, b] else [b]

/-- A cell as it is written. -/
def printCell (cell : List UInt8) : List UInt8 :=
  if cell.any isSpecial then quoteMark :: (doubled cell ++ [quoteMark]) else cell

/-- The cells of a row with commas between them. -/
def printRow : List (List UInt8) → List UInt8
  | [] => []
  | [cell] => printCell cell
  | cell :: d :: more => printCell cell ++ comma :: printRow (d :: more)

section Reading

variable {tail read after : List UInt8} {more : List (List UInt8)} {ended : Bool}

theorem readRow_doubled (cell : List UInt8)
    (h : readRow .closing tail = ⟨[] :: more, read, after, ended⟩) :
    readRow .quoted (doubled cell ++ quoteMark :: tail) =
      ⟨cell :: more, doubled cell ++ quoteMark :: read, after, ended⟩ := by
  induction cell with
  | nil => simp [doubled, readRow, h, RawRow.behind]
  | cons b cell ih =>
      rw [doubled] at ih
      by_cases hb : b = quoteMark
      · subst hb
        simp [doubled, readRow, ih, RawRow.behind]
      · simp [doubled, readRow, hb, ih, RawRow.behind]

theorem readRow_bare {cell : List UInt8} (hcell : ∀ b ∈ cell, isSpecial b = false)
    (h : readRow .bare tail = ⟨[] :: more, read, after, ended⟩) :
    readRow .bare (cell ++ tail) = ⟨cell :: more, cell ++ read, after, ended⟩ := by
  induction cell with
  | nil => exact h
  | cons b cell ih =>
      have hb := hcell b List.mem_cons_self
      simp only [isSpecial, Bool.or_eq_false_iff, beq_eq_false_iff_ne] at hb
      rw [List.cons_append, readRow, if_neg hb.1.1, hb.2,
        ih fun d hd => hcell d (List.mem_cons_of_mem b hd)]
      rfl

theorem readRow_quotedCell (cell : List UInt8)
    (h : readRow .closing tail = ⟨[] :: more, read, after, ended⟩) :
    readRow .fresh (quoteMark :: (doubled cell ++ [quoteMark]) ++ tail) =
      ⟨cell :: more, quoteMark :: (doubled cell ++ [quoteMark]) ++ read, after, ended⟩ := by
  have hcell := readRow_doubled cell h
  simp only [List.cons_append, List.append_assoc, List.nil_append]
  rw [readRow, if_pos rfl, hcell]
  rfl

theorem readRow_bareCell {cell : List UInt8} (hcell : ∀ b ∈ cell, isSpecial b = false)
    (h : ∀ place, place ≠ .quoted → readRow place tail = ⟨[] :: more, read, after, ended⟩) :
    readRow .fresh (cell ++ tail) = ⟨cell :: more, cell ++ read, after, ended⟩ := by
  cases cell with
  | nil => exact h .fresh (by decide)
  | cons b cell =>
      have hb := hcell b List.mem_cons_self
      simp only [isSpecial, Bool.or_eq_false_iff, beq_eq_false_iff_ne] at hb
      have hrest := readRow_bare (fun d hd => hcell d (List.mem_cons_of_mem b hd))
        (h .bare (by decide))
      rw [List.cons_append, readRow, if_neg hb.1.2, if_neg hb.1.1, hb.2, hrest]
      rfl

/-- A printed cell is read back in front of anything that ends a cell. -/
theorem readRow_printCell (cell : List UInt8)
    (h : ∀ place, place ≠ .quoted → readRow place tail = ⟨[] :: more, read, after, ended⟩) :
    readRow .fresh (printCell cell ++ tail) =
      ⟨cell :: more, printCell cell ++ read, after, ended⟩ := by
  rw [printCell]
  split
  · exact readRow_quotedCell cell (h .closing (by decide))
  · next hplain => exact readRow_bareCell (by simpa using hplain) h

end Reading

theorem readRow_terminator {b : UInt8} (hb : isTerminator b = true) (rest : List UInt8)
    {place : Place} (hplace : place ≠ .quoted) :
    readRow place (b :: rest) = ⟨[[]], [b], rest, true⟩ := by
  have hquote : b ≠ quoteMark := by
    rintro rfl
    exact absurd hb (by decide)
  have hcomma : b ≠ comma := by
    rintro rfl
    exact absurd hb (by decide)
  cases place with
  | quoted => exact absurd rfl hplace
  | _ => simp [readRow, hquote, hcomma, hb]

theorem readRow_comma (rest : List UInt8) {place : Place} (hplace : place ≠ .quoted) :
    readRow place (comma :: rest) = (readRow .fresh rest).behindComma := by
  have hquote : comma ≠ quoteMark := by decide
  cases place with
  | quoted => exact absurd rfl hplace
  | _ => simp [readRow, hquote]

theorem readRow_printRow {cells : List (List UInt8)} (hcells : cells ≠ []) {b : UInt8}
    (hb : isTerminator b = true) (rest : List UInt8) :
    readRow .fresh (printRow cells ++ b :: rest) = ⟨cells, printRow cells ++ [b], rest, true⟩ := by
  induction cells with
  | nil => exact absurd rfl hcells
  | cons cell more ih =>
      cases more with
      | nil => exact readRow_printCell cell fun place => readRow_terminator hb rest
      | cons d more =>
          have hrest := ih (List.cons_ne_nil d more)
          rw [printRow, List.append_assoc, List.cons_append, List.append_assoc]
          refine readRow_printCell cell fun place hplace => ?_
          rw [readRow_comma _ hplace, hrest]
          rfl

/-- How the lines of a text end. -/
inductive LineEnd where
  | feed
  | returnFeed
deriving DecidableEq, Repr

namespace LineEnd

/-- The byte that ends a row. -/
def first : LineEnd → UInt8
  | .feed => lineFeed
  | .returnFeed => carriageReturn

/-- What is left of the end of a line when the row in front of it has been read. -/
def left : LineEnd → List UInt8
  | .feed => []
  | .returnFeed => [lineFeed]

def bytes (e : LineEnd) : List UInt8 := e.first :: e.left

/-- The line feeds that are read together with a row. -/
def own : LineEnd → Nat
  | .feed => 1
  | .returnFeed => 0

theorem isTerminator_of_mem {e : LineEnd} {b : UInt8} (h : b ∈ e.bytes) :
    isTerminator b = true := by
  cases e <;> simp only [bytes, first, left, List.mem_cons, List.not_mem_nil, or_false] at h
  · subst h
    decide
  · rcases h with rfl | rfl <;> decide

theorem isTerminator_first (e : LineEnd) : isTerminator e.first = true :=
  isTerminator_of_mem List.mem_cons_self

theorem count_first (e : LineEnd) : [e.first].count lineFeed = e.own := by
  cases e <;> decide

theorem own_add_count_left (e : LineEnd) : e.own + e.left.count lineFeed = 1 := by
  cases e <;> decide

end LineEnd

/-- The line feeds inside of the cells of a row. -/
def feeds : List String → Nat
  | [] => 0
  | c :: cells => c.toList.count '\n' + feeds cells

/-- Rows of cells as text, one below the other. A row without cells is a blank line. -/
def printRows (e : LineEnd) (rows : List (List String)) : List UInt8 :=
  rows.flatMap fun cells => printRow (cells.map Text.utf8Bytes) ++ e.bytes

/-- The rows that stand behind a line, each with the line that is reached behind it. -/
def numbered (e : LineEnd) : (line : Nat) → List (List String) → List Row
  | _, [] => []
  | line, cells :: rows =>
    if cells = [] then numbered e (line + 1) rows
    else ⟨cells, line + feeds cells + e.own⟩ :: numbered e (line + feeds cells + 1) rows

def height : List (List String) → Nat
  | [] => 0
  | cells :: rows => feeds cells + 1 + height rows

theorem height_append (rows more : List (List String)) :
    height (rows ++ more) = height rows + height more := by
  induction rows with
  | nil => rw [List.nil_append, height, Nat.zero_add]
  | cons cells rows ih =>
      rw [List.cons_append, height, height, ih]
      omega

theorem numbered_blank (e : LineEnd) (line : Nat) (rows : List (List String)) :
    numbered e line ([] :: rows) = numbered e (line + 1) rows :=
  if_pos rfl

theorem numbered_cons (e : LineEnd) (line : Nat) {cells : List String} (h : cells ≠ [])
    (rows : List (List String)) :
    numbered e line (cells :: rows) =
      ⟨cells, line + feeds cells + e.own⟩ :: numbered e (line + feeds cells + 1) rows :=
  if_neg h

theorem numbered_append (e : LineEnd) (line : Nat) (rows more : List (List String)) :
    numbered e line (rows ++ more) =
      numbered e line rows ++ numbered e (line + height rows) more := by
  induction rows generalizing line with
  | nil => rfl
  | cons cells rows ih =>
      have hheight : line + height (cells :: rows) = line + feeds cells + 1 + height rows := by
        rw [height]
        omega
      rw [hheight, List.cons_append]
      by_cases hblank : cells = []
      · subst hblank
        exact ih (line + 1)
      · rw [numbered_cons e line hblank, numbered_cons e line hblank, ih, List.cons_append]

theorem count_lineFeed_doubled (cell : List UInt8) :
    (doubled cell).count lineFeed = cell.count lineFeed := by
  induction cell with
  | nil => rfl
  | cons b cell ih =>
      rw [doubled] at ih
      by_cases hb : b = quoteMark
      · subst hb
        have hquote : (quoteMark == lineFeed) = false := by decide
        simp [doubled, ih, List.count_cons, hquote]
      · simp [doubled, hb, ih, List.count_cons]

theorem count_lineFeed_printCell (cell : List UInt8) :
    (printCell cell).count lineFeed = cell.count lineFeed := by
  have hquote : (quoteMark == lineFeed) = false := by decide
  rw [printCell]
  split
  · simp [List.count_cons, hquote, count_lineFeed_doubled]
  · rfl

theorem count_lineFeed_printRow (cells : List String) :
    (printRow (cells.map Text.utf8Bytes)).count lineFeed = feeds cells := by
  induction cells with
  | nil => rfl
  | cons c cells ih =>
      have hcell : (printCell (Text.utf8Bytes c)).count lineFeed = c.toList.count '\n' := by
        rw [count_lineFeed_printCell]
        exact Text.count_lineFeed_utf8Bytes c
      have hcomma : (comma == lineFeed) = false := by decide
      cases cells with
      | nil => simp [printRow, feeds, hcell]
      | cons d cells =>
          rw [feeds, ← ih]
          simp [printRow, List.count_append, List.count_cons, hcomma, hcell]

/-- A row that can be told from a blank line and loses nothing at the ends of its cells. -/
def Printable (cells : List String) : Prop := cells ≠ [""] ∧ ∀ c ∈ cells, Text.Bare c

theorem printCell_eq_cons {cell : List UInt8} (h : cell ≠ []) :
    ∃ b rest, printCell cell = b :: rest ∧ isTerminator b = false := by
  by_cases hquoted : cell.any isSpecial = true
  · exact ⟨quoteMark, doubled cell ++ [quoteMark], by rw [printCell, if_pos hquoted], by decide⟩
  · obtain ⟨b, rest, rfl⟩ := List.exists_cons_of_ne_nil h
    refine ⟨b, rest, by rw [printCell, if_neg hquoted], ?_⟩
    simp only [List.any_cons, Bool.or_eq_true, not_or, isSpecial] at hquoted
    simpa using hquoted.1.2

/-- The bytes of a row begin with something else than a terminator, so they are no blank line. -/
theorem printRow_eq_cons {cells : List (List UInt8)} (hnil : cells ≠ []) (hblank : cells ≠ [[]]) :
    ∃ b rest, printRow cells = b :: rest ∧ isTerminator b = false := by
  cases cells with
  | nil => exact absurd rfl hnil
  | cons cell more =>
      by_cases hcell : cell = []
      · subst hcell
        cases more with
        | nil => exact absurd rfl hblank
        | cons d more => exact ⟨comma, printRow (d :: more), rfl, by decide⟩
      · obtain ⟨b, rest, hprint, hb⟩ := printCell_eq_cons hcell
        cases more with
        | nil => exact ⟨b, rest, hprint, hb⟩
        | cons d more =>
            exact ⟨b, rest ++ comma :: printRow (d :: more), by rw [printRow, hprint]; rfl, hb⟩

theorem rowsFrom_of_terminators {bytes : List UInt8} (h : ∀ b ∈ bytes, isTerminator b = true)
    (p : Position) (lead : List UInt8) : rowsFrom .complete p lead bytes = [] := by
  have hdrop : bytes.dropWhile isTerminator = [] := List.dropWhile_eq_nil_iff.2 h
  rw [rowsFrom]
  split
  · rfl
  · next heq => rw [hdrop] at heq; cases heq

theorem rowsFrom_of_readRow {gap rest after : List UInt8} {b : UInt8}
    {cells : List (List UInt8)} {read : List UInt8} {ended : Bool}
    (hgap : ∀ d ∈ gap, isTerminator d = true) (hb : isTerminator b = false)
    (hraw : readRow .fresh (b :: rest) = ⟨cells, read, after, ended⟩) (p : Position)
    (lead : List UInt8) :
    rowsFrom .complete p lead (gap ++ b :: rest) =
      rowOfCells p (p.advance (lead ++ gap ++ read)).line cells ::
        rowsFrom .complete (p.advance (lead ++ gap ++ read)) [] after := by
  have hneg : ¬isTerminator b = true := by simp [hb]
  have hskip : (gap ++ b :: rest).takeWhile isTerminator = gap := by
    rw [List.takeWhile_append_of_pos hgap, List.takeWhile_cons_of_neg hneg, List.append_nil]
  have hdrop : (gap ++ b :: rest).dropWhile isTerminator = b :: rest := by
    rw [List.dropWhile_append_of_pos hgap, List.dropWhile_cons_of_neg hneg]
  rw [rowsFrom]
  split
  · next heq => rw [hdrop] at heq; cases heq
  · next d tail heq =>
      obtain ⟨rfl, rfl⟩ : d = b ∧ tail = rest := by
        rw [hdrop] at heq
        simpa [eq_comm] using heq
      simp [hraw, hskip]

theorem cellTexts_utf8Bytes (n : Nat) (cells : List String) :
    cellTexts n (cells.map Text.utf8Bytes) = .ok cells := by
  induction cells generalizing n with
  | nil => rfl
  | cons c cells ih =>
      simp only [List.map_cons, cellTexts, Text.utf8Text?_utf8Bytes, ih]
      rfl

theorem exists_map_trimEnds (texts : List String) :
    ∃ kept : List String,
      (texts.map Text.utf8Bytes).map (Text.trimEnds Text.isAsciiBlank) = kept.map Text.utf8Bytes ∧
        kept.map Text.trim = texts.map Text.trim := by
  induction texts with
  | nil => exact ⟨[], rfl, rfl⟩
  | cons s texts ih =>
      obtain ⟨t, hbytes, htrim⟩ := Text.exists_trimEnds_utf8Bytes s
      obtain ⟨kept, hkept, hrest⟩ := ih
      refine ⟨t :: kept, ?_, by rw [List.map_cons, List.map_cons, htrim, hrest]⟩
      rw [List.map_cons, List.map_cons, hbytes, hkept, List.map_cons]

/-- Encoded texts are the cells of a row without the white space at their ends, whichever row it
is. -/
theorem rowOfCells_utf8Bytes (p : Position) (line : Nat) (texts : List String) :
    rowOfCells p line (texts.map Text.utf8Bytes) = .ok ⟨texts.map Text.trim, line⟩ := by
  obtain ⟨kept, hbytes, htrim⟩ := exists_map_trimEnds texts
  rw [rowOfCells, hbytes]
  by_cases hfirst : p.record = 0
  · simp only [if_pos hfirst, cellTexts_utf8Bytes]
  · simp only [if_neg hfirst, cellTexts_utf8Bytes, htrim]

theorem map_trim_of_bare {texts : List String} (h : ∀ s ∈ texts, Text.Bare s) :
    texts.map Text.trim = texts :=
  (List.map_congr_left fun s hs => Text.trim_of_bare (h s hs)).trans (List.map_id' texts)

/-- A printed row is read back behind any gap, and the reader stands behind its terminator. -/
theorem rowsFrom_printRow {cells : List String} (hcells : Printable cells) (hnil : cells ≠ [])
    (e : LineEnd) {p : Position} {lead gap : List UInt8} {line : Nat}
    (hgap : ∀ b ∈ gap, isTerminator b = true) (hline : p.line + (lead ++ gap).count lineFeed = line)
    (after : List UInt8) :
    ∃ q : Position, q.line = line + feeds cells + e.own ∧
      rowsFrom .complete p lead
          (gap ++ (printRow (cells.map Text.utf8Bytes) ++ e.first :: after)) =
        .ok ⟨cells, q.line⟩ :: rowsFrom .complete q [] after := by
  obtain ⟨hone, hbare⟩ := hcells
  have hbytes : cells.map Text.utf8Bytes ≠ [] := by simpa using hnil
  obtain ⟨b, rest, hprint, hb⟩ := printRow_eq_cons hbytes (by
    simpa [List.map_eq_singleton_iff, Text.utf8Bytes_eq_nil_iff] using hone)
  have hread := readRow_printRow hbytes (LineEnd.isTerminator_first e) after
  have hcount := count_lineFeed_printRow cells
  rw [hprint] at hcount hread ⊢
  rw [List.cons_append] at hread
  refine ⟨p.advance (lead ++ gap ++ (b :: rest ++ [e.first])), ?_, ?_⟩
  · simp only [Position.advance, List.count_append, hcount, LineEnd.count_first] at hline ⊢
    omega
  · rw [List.cons_append, rowsFrom_of_readRow hgap hb hread, rowOfCells_utf8Bytes,
      map_trim_of_bare hbare]

/-- Printed rows are read back behind any position, with what is left of the line in front. -/
theorem rowsFrom_printRows (e : LineEnd) {rows : List (List String)}
    (hrows : ∀ cells ∈ rows, Printable cells) {p : Position} {lead gap : List UInt8} {line : Nat}
    (hgap : ∀ b ∈ gap, isTerminator b = true)
    (hline : p.line + (lead ++ gap).count lineFeed = line) :
    rowsFrom .complete p lead (gap ++ printRows e rows) = (numbered e line rows).map .ok := by
  induction rows generalizing p lead gap line with
  | nil =>
      rw [printRows, List.flatMap_nil, List.append_nil]
      exact rowsFrom_of_terminators hgap p lead
  | cons cells rows ih =>
      have hlater := fun d hd => hrows d (List.mem_cons_of_mem cells hd)
      have hown := LineEnd.own_add_count_left e
      rw [printRows, List.flatMap_cons, ← printRows, LineEnd.bytes, List.append_assoc]
      by_cases hblank : cells = []
      · -- a blank line only makes the gap in front of the next row longer
        subst hblank
        have hends : ∀ b ∈ gap ++ e.bytes, isTerminator b = true := by
          intro b hb
          rcases List.mem_append.1 hb with hb | hb
          · exact hgap b hb
          · exact LineEnd.isTerminator_of_mem hb
        have hcount : e.bytes.count lineFeed = 1 := by
          rw [← hown, ← LineEnd.count_first, ← List.count_append]
          rfl
        have hnext : p.line + (lead ++ (gap ++ e.bytes)).count lineFeed = line + 1 := by
          simp only [List.count_append, hcount] at hline ⊢
          omega
        have hrest := ih hlater hends hnext
        rw [numbered, if_pos rfl, ← hrest, LineEnd.bytes, List.append_assoc]
        rfl
      · obtain ⟨q, hq, hrow⟩ := rowsFrom_printRow (hrows cells List.mem_cons_self) hblank e hgap
          hline (e.left ++ printRows e rows)
        have hleft : ∀ d ∈ e.left, isTerminator d = true :=
          fun d hd => LineEnd.isTerminator_of_mem (List.mem_cons_of_mem e.first hd)
        have hnext : q.line + ([] ++ e.left).count lineFeed = line + feeds cells + 1 := by
          rw [hq, List.nil_append]
          omega
        have hrest := ih hlater hleft hnext
        rw [List.cons_append, hrow, hrest, hq, numbered, if_neg hblank, List.map_cons]

/-- The rows of a printed text are its rows that are not blank. -/
theorem rows_printRows (e : LineEnd) {rows : List (List String)}
    (hrows : ∀ cells ∈ rows, Printable cells) (n : Option Nat)
    (hmark : (printRows e rows).take 3 ≠ byteOrderMark) :
    Input.rows ⟨printRows e rows, n, .complete⟩ = (numbered e 1 rows).map .ok := by
  have hread : rowsFrom .complete {} [] ([] ++ printRows e rows) = (numbered e 1 rows).map .ok :=
    rowsFrom_printRows e hrows (fun b hb => absurd hb List.not_mem_nil) rfl
  simpa [Input.rows, Input.hasMark, hmark] using hread

end TimeSeries.Csv
