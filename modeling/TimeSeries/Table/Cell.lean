import TimeSeries.Number.Numeral
import TimeSeries.Table.Types
import TimeSeries.Text.Utf8
import TimeSeries.Time.Span

/-!
# Cells

A cell is text until the type of its column gives it a value. An empty cell stands for the default
of its column. An empty text is `null` in every type but `string`, where it is itself.
-/

namespace TimeSeries

/-- A truth value in any mixture of small letters and capitals. -/
def readBool? (s : String) : Option Bool :=
  match String.ofList (Number.Numeral.lower s.toList) with
  | "true" => some true
  | "false" => some false
  | _ => none

namespace DataType

/-- The value of a text that is not empty, for a cell of the given column. -/
def read (t : DataType) (column s : String) : Except TableError Value :=
  let malformed (fault : CellFault) : Except TableError Value :=
    .error (.malformedCell column s fault)
  match t with
  | .string => .ok (.string s)
  | .double =>
    match Number.readFloat? s with
    | some x => .ok (.double x)
    | none => malformed .double
  | .bool =>
    match readBool? s with
    | some b => .ok (.bool b)
    | none => malformed .bool
  | .long =>
    match Number.readInt64 s with
    | .ok i => .ok (.long i)
    | .error fault => malformed (.integer fault)
  | .unsignedLong =>
    match Number.readUInt64 s with
    | .ok u => .ok (.unsigned u)
    | .error fault => malformed (.integer fault)
  | .duration =>
    match Span.read s with
    | .ok n => .ok (.duration n)
    | .error .invalid => malformed .duration
    | .error .cut => .error .halted
  | .base64Binary =>
    match Base64.decode (Text.utf8Bytes s) with
    | .ok b => .ok (.binary b)
    | .error fault => malformed (.binary fault)
  | .time =>
    match Moment.read s with
    | .ok m => .ok (.time m)
    | .error fault => malformed (.time fault)

def readText (t : DataType) (column s : String) : Except TableError Value :=
  if s = "" ∧ t ≠ .string then .ok .null else t.read column s

end DataType

/-- What a cell of a column stands for. -/
def Column.textOf (c : Column) (cell : String) : String := if cell = "" then c.default else cell

/-- The value of a cell of a column. -/
def Column.read (c : Column) (cell : String) : Except TableError Value :=
  c.dataType.readText c.name (c.textOf cell)

end TimeSeries
