import TimeSeries.Point.LineBuffer

/-!
# Series

The points of one series share measurement and tags, so this part of their lines is written once,
when the series is made. A series encodes a set of fields behind it on a buffer of its own, and it
can also be continued as a draft of a point; both ways give the same line.
-/

namespace TimeSeries

/-- A measurement with tags, ready for encoding. -/
structure Series where
  measurement : String
  tags : KeyMap String
  /-- The beginning of every line of the series. -/
  key : String
  buffer : LineBuffer
deriving DecidableEq

namespace Series

/-- The series of a measurement and tags, of which the last one of a key counts. -/
def new (measurement : String) (tags : List (String × String)) : Except PointError Series :=
  if measurement = "" then .error .emptyMeasurement
  else
    let tags := KeyMap.ofList tags
    if "" ∈ tags.keys then .error (.emptySeriesTagKey measurement)
    else .ok ⟨measurement, tags, seriesKey measurement tags, ⟨""⟩⟩

/-- A draft of a point of the series. -/
def draft (s : Series) : PointDraft := { measurement := s.measurement, tags := s.tags }

/-- The line of a set of fields at a time given in units of the precision, written onto the cleared
buffer of the series. -/
def encode (s : Series) (fields : List (String × FieldValue)) (time : Option Int64)
    (p : Precision) : Series × Except PointError String :=
  let t := time.map fun value => Timestamp.mk value p
  match (s.buffer.clear.append s.key).writeFieldsAndTime (KeyMap.ofList fields) t p with
  | (b, .ok ()) => ({ s with buffer := b }, .ok b.text)
  | (b, .error fault) => ({ s with buffer := b.clear }, .error (.fieldSet fault none))

end Series

end TimeSeries
