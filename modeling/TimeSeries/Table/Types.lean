import TimeSeries.KeyMap
import TimeSeries.Table.Error
import TimeSeries.Value.Basic

/-!
# Tables of a response

A response is a sequence of tables. The head of a table describes its columns; its records hold a
value for every column name. Columns named as destinations are the values of a record, and the other
columns of the group key are its tags.

Tables are counted without a bound. A counter of 32 bits with a sign says the same for a response of
fewer than `2 ^ 31` tables, and only such responses are meant.
-/

namespace TimeSeries

/-- The type of the values in a column. -/
inductive DataType where
  | string
  | double
  | bool
  | long
  | unsignedLong
  | duration
  /-- Bytes as base64. -/
  | base64Binary
  | time
deriving DecidableEq, Repr

namespace DataType

/-- The name of a type in an annotation. -/
def name : DataType → String
  | .string => "string"
  | .double => "double"
  | .bool => "boolean"
  | .long => "long"
  | .unsignedLong => "unsignedLong"
  | .duration => "duration"
  | .base64Binary => "base64Binary"
  | .time => "dateTime:RFC3339"

/-- The type with a name; moments have two. -/
def ofName? : String → Option DataType
  | "string" => some .string
  | "double" => some .double
  | "boolean" => some .bool
  | "long" => some .long
  | "unsignedLong" => some .unsignedLong
  | "duration" => some .duration
  | "base64Binary" => some .base64Binary
  | "dateTime:RFC3339" => some .time
  | "dateTime:RFC3339Nano" => some .time
  | _ => none

end DataType

/-- A column of a table. -/
structure Column where
  /-- The place of the column, from zero. -/
  index : Nat
  name : String := ""
  dataType : DataType := .string
  /-- The column is part of the group key. -/
  group : Bool := false
  /-- What an empty cell stands for. -/
  default : String := ""
  tag : Bool := false
deriving DecidableEq, Repr

/-- What is known of a table before its records. -/
structure TableHead where
  /-- The place of the table in the response, from zero; it is exact below `2 ^ 31`. -/
  position : Nat
  columns : List Column
deriving DecidableEq, Repr

namespace TableHead

/-- A head with columns of which nothing is known yet. -/
def blank (position width : Nat) : TableHead :=
  ⟨position, (List.range width).map fun i => { index := i }⟩

def column? (h : TableHead) (name : String) : Option Column :=
  h.columns.find? fun c => c.name = name

def groupKey (h : TableHead) : List Column := h.columns.filter Column.group

end TableHead

/-- A row of a table. -/
structure Record where
  /-- The place of the table in the response, exact below `2 ^ 31` as it is in the head. -/
  table : Nat
  columns : KeyMap Value
  tags : KeyMap Value
  values : KeyMap Value
  /-- The destination that is the value of the record. -/
  valueColumn : String
deriving DecidableEq

namespace Record

def get? (r : Record) (name : String) : Option Value := r.columns.get? name

def getString? (r : Record) (name : String) : Option String := (r.get? name).bind Value.asString?

def getDouble? (r : Record) (name : String) : Option Float := (r.get? name).bind Value.asDouble?

def getLong? (r : Record) (name : String) : Option Int64 := (r.get? name).bind Value.asLong?

def getBool? (r : Record) (name : String) : Option Bool := (r.get? name).bind Value.asBool?

def time? (r : Record) : Option Moment := (r.get? "_time").bind Value.asTime?

def measurement? (r : Record) : Option String := r.getString? "_measurement"

def field? (r : Record) : Option String := r.getString? "_field"

def value? (r : Record) : Option Value := r.values.get? r.valueColumn

end Record

/-- A table of a response. -/
structure Table where
  head : TableHead
  records : List Record
deriving DecidableEq

end TimeSeries
