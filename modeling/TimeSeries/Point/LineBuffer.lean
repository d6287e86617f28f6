import TimeSeries.Point.Line

/-!
# Lines written onto a text

A `LineBuffer` is a text that lines are appended to, piece by piece. Appending a point is all or
nothing: the fault is found only after its first pieces were written, and then the buffer is cut
back to the length it had. `encode` reuses one buffer for one point after the other.

The pieces are written in the order in which they stand, and a comma goes in front of every field
but the first that is written.
-/

namespace TimeSeries

/-- A text that grows at its end. -/
structure LineBuffer where
  text : String := ""
deriving DecidableEq, Repr

namespace LineBuffer

def length (b : LineBuffer) : Nat := b.text.length

def append (b : LineBuffer) (s : String) : LineBuffer := ⟨b.text ++ s⟩

/-- The buffer without what stands behind its first characters. -/
def truncate (b : LineBuffer) (length : Nat) : LineBuffer :=
  ⟨String.ofList (b.text.toList.take length)⟩

def clear (_ : LineBuffer) : LineBuffer := ⟨""⟩

/-- The tags with a value behind what was written, each with its comma. -/
def writeTags (b : LineBuffer) : List (String × String) → LineBuffer
  | [] => b
  | (key, value) :: rest =>
    if value = "" then b.writeTags rest
    else (b.append ("," ++ Text.escapeKey key ++ "=" ++ Text.escapeKey value)).writeTags rest

def writeSeriesKey (b : LineBuffer) (measurement : String) (tags : KeyMap String) : LineBuffer :=
  (b.append (Text.escapeKey measurement)).writeTags tags.toList

/-- The fields behind what was written, with the number of them that were written before. On a fault
those in front of it have been written. -/
def writeFields (b : LineBuffer) (written : Nat) :
    List (String × FieldValue) → LineBuffer × Except FieldSetFault Nat
  | [] => (b, .ok written)
  | (key, value) :: rest =>
    if key = "" then (b, .error .unnamed)
    else if value.isWritable then
      let b := if 0 < written then b.append "," else b
      (b.append (fieldText (key, value))).writeFields (written + 1) rest
    else b.writeFields written rest

def writeFieldsAndTime (b : LineBuffer) (fields : KeyMap FieldValue) (t : Option Timestamp)
    (p : Precision) : LineBuffer × Except FieldSetFault Unit :=
  match (b.append " ").writeFields 0 fields.toList with
  | (b, .error fault) => (b, .error fault)
  | (b, .ok written) =>
    if written = 0 then (b, .error .noneWritable) else (b.append (timeText t p), .ok ())

/-- A point behind what was written. On a fault the buffer is cut back. -/
def push (b : LineBuffer) (x : Point) (p : Precision) : LineBuffer × Except PointError Unit :=
  match (b.writeSeriesKey x.measurement x.tags).writeFieldsAndTime x.fields x.timestamp p with
  | (written, .ok ()) => (written, .ok ())
  | (written, .error fault) =>
    (written.truncate b.length, .error (.fieldSet fault (some x.measurement)))

/-- The line of one point, written onto the cleared buffer. -/
def encode (b : LineBuffer) (x : Point) (p : Precision) :
    LineBuffer × Except PointError String :=
  let (b, result) := b.clear.push x p
  (b, result.map fun _ => b.text)

end LineBuffer

end TimeSeries
