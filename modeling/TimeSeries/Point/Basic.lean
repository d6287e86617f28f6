import TimeSeries.KeyMap
import TimeSeries.Point.Error
import TimeSeries.Point.Field
import TimeSeries.Point.Precision

/-!
# Points

A point belongs to a measurement and has tags, fields and at most one timestamp. It is drafted
step by step and then built. A draft accepts anything; a repeated key replaces. What is built has a
measurement, at least one field and no empty key, and these facts are part of the type `Point`.

When more than one thing is wrong with a draft, the faults count in the order measurement, lack of
fields, tag keys, field keys.
-/

namespace TimeSeries

/-- A point being put together. -/
structure PointDraft where
  measurement : String
  tags : KeyMap String := KeyMap.empty
  fields : KeyMap FieldValue := KeyMap.empty
  timestamp : Option Timestamp := none
deriving DecidableEq

/-- A point that can be sent, up to fields that the wire cannot carry. -/
structure Point where
  measurement : String
  tags : KeyMap String
  fields : KeyMap FieldValue
  /-- The timestamp; the receiver chooses one when there is none. -/
  timestamp : Option Timestamp
  measurement_ne : measurement ≠ ""
  fields_ne : fields.isEmpty = false
  tagKeys_ne : "" ∉ tags.keys
  fieldKeys_ne : "" ∉ fields.keys
deriving DecidableEq

namespace PointDraft

def tag (d : PointDraft) (key value : String) : PointDraft :=
  { d with tags := d.tags.insert key value }

/-- A draft with more tags, taken from left to right. -/
def addTags (d : PointDraft) (tags : List (String × String)) : PointDraft :=
  { d with tags := d.tags.insertList tags }

def field (d : PointDraft) (key : String) (value : FieldValue) : PointDraft :=
  { d with fields := d.fields.insert key value }

/-- A draft with more fields, taken from left to right. -/
def addFields (d : PointDraft) (fields : List (String × FieldValue)) : PointDraft :=
  { d with fields := d.fields.insertList fields }

def timestamped (d : PointDraft) (t : Timestamp) : PointDraft := { d with timestamp := some t }

def atMoment (d : PointDraft) (m : Moment) : PointDraft := d.timestamped (Timestamp.ofMoment m)

/-- The finished point, or the first thing that is wrong. -/
def build (d : PointDraft) : Except PointError Point :=
  if hm : d.measurement = "" then .error .emptyMeasurement
  else if hf : d.fields.isEmpty = true then .error (.noFields d.measurement)
  else if ht : "" ∈ d.tags.keys then .error (.emptyTagKey d.measurement)
  else if hk : "" ∈ d.fields.keys then .error (.emptyFieldKey d.measurement)
  else .ok ⟨d.measurement, d.tags, d.fields, d.timestamp, hm, by simpa using hf, ht, hk⟩

end PointDraft

end TimeSeries
