import TimeSeries.Point.Basic

/-!
# Line protocol

A line is `measurement,tag=value,… field=value,… timestamp`. Tags and fields stand in key order.
A tag with an empty value and a field that the wire cannot carry are left out; a point without any
field left has no line. The timestamp is converted to the precision that the receiver expects.
-/

namespace TimeSeries

/-- The part of a line that names the series: the measurement and the tags with a value. -/
def seriesKey (measurement : String) (tags : KeyMap String) : String :=
  Text.escapeKey measurement ++
    String.join ((tags.toList.filter fun e => e.2 ≠ "").map fun e =>
      "," ++ Text.escapeKey e.1 ++ "=" ++ Text.escapeKey e.2)

/-- One field as it stands in a line. -/
def fieldText (e : String × FieldValue) : String := Text.escapeKey e.1 ++ "=" ++ e.2.lineText

/-- The fields that a line shows, in key order. -/
def writableFields (fields : KeyMap FieldValue) : List (String × FieldValue) :=
  fields.toList.filter fun e => e.2.isWritable

def fieldSet (fields : KeyMap FieldValue) : Except FieldSetFault String :=
  if "" ∈ fields.keys then .error .unnamed
  else
    match writableFields fields with
    | [] => .error .noneWritable
    | written => .ok (",".intercalate (written.map fieldText))

/-- The end of a line, empty without a timestamp. -/
def timeText (t : Option Timestamp) (p : Precision) : String :=
  match t with
  | some t => " " ++ toString (t.toPrecision p).toInt
  | none => ""

/-- The line of a point at a precision. -/
def Point.line (x : Point) (p : Precision) : Except PointError String :=
  match fieldSet x.fields with
  | .ok fields => .ok (seriesKey x.measurement x.tags ++ " " ++ fields ++ timeText x.timestamp p)
  | .error fault => .error (.fieldSet fault (some x.measurement))

end TimeSeries
