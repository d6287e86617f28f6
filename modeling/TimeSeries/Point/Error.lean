/-!
# Faults of points, series and records

`PointError` lists why a point, a series or a record of the write pipeline is refused, and says it
in words.
-/

namespace TimeSeries

/-- Why a set of fields cannot be written. -/
inductive FieldSetFault where
  | unnamed
  /-- There is no field that the wire can carry. -/
  | noneWritable
deriving DecidableEq, Repr

/-- Why a point, a series or a record is refused. -/
inductive PointError where
  | emptyMeasurement
  | noFields (measurement : String)
  /-- A tag key of the point is empty. -/
  | emptyTagKey (measurement : String)
  /-- A field key of the point is empty. -/
  | emptyFieldKey (measurement : String)
  /-- A tag key of the series is empty. -/
  | emptySeriesTagKey (measurement : String)
  /-- The fields cannot be written; the measurement is named for those of a point. -/
  | fieldSet (fault : FieldSetFault) (measurement : Option String)
  | emptyRecord
  /-- The record has more than one line. -/
  | multilineRecord
deriving DecidableEq, Repr

namespace PointError

def reason : PointError → String
  | .emptyMeasurement => "measurement must not be empty"
  | .noFields m => "point '" ++ m ++ "' has no fields"
  | .emptyTagKey m => "point '" ++ m ++ "' has an empty tag key"
  | .emptyFieldKey m => "point '" ++ m ++ "' has an empty field key"
  | .emptySeriesTagKey m => "series '" ++ m ++ "' has an empty tag key"
  | .fieldSet fault m =>
    (match fault with
      | .unnamed => "empty field key"
      | .noneWritable => "no writable fields") ++
    match m with
    | some m => " (measurement '" ++ m ++ "')"
    | none => ""
  | .emptyRecord => "empty record"
  | .multilineRecord => "record must be a single line"

def message (e : PointError) : String := "Invalid point: " ++ e.reason

end PointError

end TimeSeries
