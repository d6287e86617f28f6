import TimeSeries.Text.Blank
import TimeSeries.Text.Utf8

/-!
# Rows of comma separated values

Bytes are cut into rows and rows into cells. A comma ends a cell; a line feed or a carriage return
ends a row. Terminators in front of a row are skipped, so an empty line is no row and the line feed
behind a carriage return belongs to the next row.

A cell is quoted if its first byte is a double quote. Inside the quotes everything stands for itself
except that two quotes stand for one. What follows the closing quote is read as bare text. Quotes
in bare text stand for themselves.

Cells are text. White space at their ends is removed after quotes are resolved. A row with a cell
that is not UTF-8 is a fault, and reading can go on with the next row.

Every row knows the number of the line that the reader has reached, which counts the line feeds
read so far.
-/

namespace TimeSeries.Csv

/-- Why a row cannot be read. -/
inductive RowFault where
  /-- The cell with the number `field` of the row with the number `record` has `valid` well-formed
  bytes and then a malformed one. Reading of the row began at `line` and `byte`. -/
  | malformed (record line field byte valid : Nat)
  | broken (reason : String)
deriving DecidableEq, Repr

def RowFault.message : RowFault → String
  | .malformed record line field byte valid =>
    "CSV parse error: record " ++ toString record ++ " (line " ++ toString line ++ ", field: " ++
      toString field ++ ", byte: " ++ toString byte ++
      "): invalid utf-8: invalid UTF-8 in field " ++ toString field ++ " near byte index " ++
      toString valid
  | .broken reason => reason

/-- A row. -/
structure Row where
  cells : List String
  /-- The line that was reached behind the row. -/
  line : Nat
deriving DecidableEq, Repr

def lineFeed : UInt8 := 0x0A

def carriageReturn : UInt8 := 0x0D

def comma : UInt8 := 0x2C

def quoteMark : UInt8 := 0x22

def isTerminator (b : UInt8) : Bool := b == lineFeed || b == carriageReturn

/-- Where in a cell the reader stands. -/
inductive Place where
  | fresh
  | bare
  | quoted
  /-- Behind a quote that closes the cell unless another one follows. -/
  | closing
deriving DecidableEq, Repr

/-- The bytes of a row. -/
structure RawRow where
  /-- The cells, quotes resolved; the first one is the one being read. -/
  cells : List (List UInt8)
  read : List UInt8
  rest : List UInt8
  ended : Bool
deriving DecidableEq, Repr

namespace RawRow

/-- A row that was read behind a byte, which may belong to its first cell. -/
def behind (b : UInt8) (kept : Bool) (r : RawRow) : RawRow :=
  { r with
    cells := if kept then
        match r.cells with
        | [] => [[b]]
        | cell :: more => (b :: cell) :: more
      else r.cells
    read := b :: r.read }

/-- A row that was read behind a comma. -/
def behindComma (r : RawRow) : RawRow :=
  { r with cells := [] :: r.cells, read := comma :: r.read }

end RawRow

/-- The row at the front of the bytes, from a place in its first cell. -/
def readRow : Place → List UInt8 → RawRow
  | _, [] => ⟨[[]], [], [], false⟩
  | .quoted, b :: rest =>
    if b = quoteMark then (readRow .closing rest).behind b false
    else (readRow .quoted rest).behind b true
  | .fresh, b :: rest =>
    if b = quoteMark then (readRow .quoted rest).behind b false
    else if b = comma then (readRow .fresh rest).behindComma
    else if isTerminator b then ⟨[[]], [b], rest, true⟩
    else (readRow .bare rest).behind b true
  | .closing, b :: rest =>
    if b = quoteMark then (readRow .quoted rest).behind b true
    else if b = comma then (readRow .fresh rest).behindComma
    else if isTerminator b then ⟨[[]], [b], rest, true⟩
    else (readRow .bare rest).behind b true
  | .bare, b :: rest =>
    if b = comma then (readRow .fresh rest).behindComma
    else if isTerminator b then ⟨[[]], [b], rest, true⟩
    else (readRow .bare rest).behind b true

/-- Nothing is lost: what was read and what follows are the bytes. -/
theorem readRow_read_append_rest (place : Place) (bytes : List UInt8) :
    (readRow place bytes).read ++ (readRow place bytes).rest = bytes := by
  fun_induction readRow place bytes <;> simp_all [RawRow.behind, RawRow.behindComma]

theorem readRow_read_ne_nil (place : Place) (b : UInt8) (rest : List UInt8) :
    (readRow place (b :: rest)).read ≠ [] := by
  cases place <;> simp only [readRow] <;> (repeat' split) <;>
    simp [RawRow.behind, RawRow.behindComma]

theorem length_rest_lt (place : Place) (b : UInt8) (rest : List UInt8) :
    (readRow place (b :: rest)).rest.length < (b :: rest).length := by
  have h := congrArg List.length (readRow_read_append_rest place (b :: rest))
  have := List.length_pos_iff.2 (readRow_read_ne_nil place b rest)
  simp only [List.length_append] at h
  omega

/-- Where the reading of a row begins. -/
structure Position where
  record : Nat := 0
  /-- One more than the number of line feeds read. -/
  line : Nat := 1
  byte : Nat := 0
deriving DecidableEq, Repr

/-- The position behind some bytes and the row that they hold. -/
def Position.advance (p : Position) (bytes : List UInt8) : Position :=
  ⟨p.record + 1, p.line + bytes.count lineFeed, p.byte + bytes.length⟩

/-- The texts of the cells from number `n` on, or the number of the first malformed cell with the
number of its well-formed bytes. -/
def cellTexts : (n : Nat) → List (List UInt8) → Except (Nat × Nat) (List String)
  | _, [] => .ok []
  | n, cell :: more =>
    match Text.utf8Text? cell with
    | .error valid => .error (n, valid)
    | .ok s => (cellTexts (n + 1) more).map (s :: ·)

/-- The row of some cells. White space in the first row is removed from texts only, in all others
from the bytes before, which shows in the place of a fault. -/
def rowOfCells (p : Position) (line : Nat) (cells : List (List UInt8)) : Except RowFault Row :=
  let bytes := if p.record = 0 then cells else cells.map (Text.trimEnds Text.isAsciiBlank)
  match cellTexts 1 bytes with
  | .ok texts => .ok ⟨texts.map Text.trim, line⟩
  | .error (field, valid) => .error (.malformed p.record p.line field p.byte valid)

/-- How the input ends. -/
inductive Ending where
  | complete
  | broken (reason : String)
deriving DecidableEq, Repr

/-- What is reported when the bytes are used up. -/
def Ending.report : Ending → List (Except RowFault Row)
  | .complete => []
  | .broken reason => [.error (.broken reason)]

/-- The rows of the bytes behind a position, of which `lead` come in front of the first row. A row
without a terminator counts only if the input is complete. -/
def rowsFrom (ending : Ending) (p : Position) (lead : List UInt8) (bytes : List UInt8) :
    List (Except RowFault Row) :=
  let skipped := bytes.takeWhile isTerminator
  match h : bytes.dropWhile isTerminator with
  | [] => ending.report
  | b :: rest =>
    let raw := readRow .fresh (b :: rest)
    have : raw.rest.length < bytes.length := by
      have h₁ := length_rest_lt .fresh b rest
      have h₂ : (b :: rest).length ≤ bytes.length := h ▸ (List.dropWhile_sublist _).length_le
      exact Nat.lt_of_lt_of_le h₁ h₂
    if raw.ended = false ∧ ending ≠ .complete then ending.report
    else
      let next := p.advance (lead ++ skipped ++ raw.read)
      rowOfCells p next.line raw.cells :: rowsFrom ending next [] raw.rest
termination_by bytes.length

def byteOrderMark : List UInt8 := [0xEF, 0xBB, 0xBF]

/-- An input: its bytes, how many of them the first read brings, and how it ends. -/
structure Input where
  bytes : List UInt8
  /-- The number of bytes that the first read can bring; all of them if not given. -/
  firstRead : Option Nat := none
  ending : Ending := .complete
deriving DecidableEq, Repr

namespace Input

/-- The input begins with a byte order mark and the first read brings all of it. -/
def hasMark (i : Input) : Bool :=
  i.bytes.take 3 == byteOrderMark && i.firstRead.all fun n => decide (3 ≤ n)

def rows (i : Input) : List (Except RowFault Row) :=
  if i.hasMark then rowsFrom i.ending {} byteOrderMark (i.bytes.drop 3)
  else rowsFrom i.ending {} [] i.bytes

end Input

end TimeSeries.Csv
