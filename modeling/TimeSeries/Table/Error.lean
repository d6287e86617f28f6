import TimeSeries.Csv.Row
import TimeSeries.Number.Integer
import TimeSeries.Text.Base64
import TimeSeries.Time.Rfc3339

/-!
# Faults of a response

`CellFault` says why a cell has not the type of its column, and `TableError` why a response cannot
be read on. A response may also carry the report of a fault of the query itself.
-/

namespace TimeSeries

/-- Why a cell has not the type of its column. -/
inductive CellFault where
  /-- The cell is no floating point number. -/
  | double
  | bool
  /-- The cell is no integer of the type. -/
  | integer (fault : IntegerFault)
  /-- The cell is no length of time. -/
  | duration
  | binary (fault : Base64Fault)
  | time (fault : TimeFault)
deriving DecidableEq, Repr

def CellFault.message : CellFault → String
  | .double => "invalid float literal"
  | .bool => "expected true or false"
  | .integer fault => fault.message
  | .duration => "invalid duration"
  | .binary fault => fault.message
  | .time fault => fault.message

/-- Why a response cannot be read on. -/
inductive TableError where
  | csv (fault : Csv.RowFault)
  | singleCell (cell : String)
  | firstCell (cell : String)
  /-- A cell has not the type of its column. -/
  | malformedCell (column cell : String) (fault : CellFault)
  | unknownDataType (name : String)
  /-- Rows stand in front of all annotations. -/
  | noAnnotations
  /-- The names of the columns stand in front of their types. -/
  | noDataTypes
  /-- A record stands in front of all tables. -/
  | noTable
  /-- A row is not as wide as its block. -/
  | width (expected actual : Nat)
  /-- The query failed, as the response says. -/
  | query (message : String) (reference : Option String)
  /-- The unit of a length of time was cut inside a character. -/
  | halted
deriving DecidableEq, Repr

def TableError.message : TableError → String
  | .csv fault => "CSV parse error: CSV read error: " ++ fault.message
  | .singleCell cell => "Failed to parse response: Row with a single cell: " ++ cell
  | .firstCell cell => "Failed to parse response: Invalid first cell: " ++ cell
  | .malformedCell column cell fault =>
    "Malformed cell '" ++ cell ++ "' in column '" ++ column ++ "': " ++ fault.message
  | .unknownDataType name => "Unknown data type: " ++ name
  | .noAnnotations => "Missing annotation: No annotations found before data"
  | .noDataTypes => "Missing annotation: #datatype annotation not found"
  | .noTable => "Missing annotation: record before table header"
  | .width expected actual =>
    "Column count mismatch: expected " ++ toString expected ++ ", got " ++ toString actual
  | .query message _ => "Query error from InfluxDB: " ++ message
  | .halted => "unit of a duration cut inside a character"

end TimeSeries
