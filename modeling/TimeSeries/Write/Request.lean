import TimeSeries.Point.Line
import TimeSeries.Text.Blank
import TimeSeries.Text.Lines
import TimeSeries.Write.Options

/-!
# Write requests

A submission is what a caller hands in: a point, a value that turns into a point, or a record that
is encoded already. It becomes an item, which is one line of a request. The body of a request holds
the lines of its items, one below the other, without a line feed at the end.
-/

namespace TimeSeries

/-- An encoded record, and the point it was encoded from. -/
structure Item where
  line : String
  /-- The point, unless the record came encoded. -/
  point : Option Point
deriving DecidableEq

/-- What is handed in for writing. -/
inductive Submission where
  | point (p : Point)
  /-- A value of the caller, with the point it turns into or the reason why it does not. -/
  | measurement (p : Except PointError Point)
  | record (text : String)

namespace Item

def ofPoint (precision : Precision) (p : Point) : Except PointError Item :=
  (p.line precision).map fun line => ⟨line, some p⟩

/-- The item of an encoded record. White space around it is dropped; what is left is one line. -/
def ofRecord (text : String) : Except PointError Item :=
  let line := Text.trim text
  if line = "" then .error .emptyRecord
  else if Text.hasLineFeed line then .error .multilineRecord
  else .ok ⟨line, none⟩

end Item

/-- A batch that is ready to be sent. -/
structure WriteRequest where
  database : String
  /-- The retention policy, if it is not the one of the server. -/
  retentionPolicy : Option String
  /-- The precision of the timestamps in the body. -/
  precision : Precision
  consistency : Consistency
  body : String
  lines : Nat
deriving DecidableEq, Repr

def WriteRequest.ofLines (o : WriteOptions) (lines : List String) : WriteRequest :=
  { database := o.database
    retentionPolicy := o.retentionPolicy
    precision := o.precision
    consistency := o.consistency
    body := String.intercalate "\n" lines
    lines := lines.length }

end TimeSeries
