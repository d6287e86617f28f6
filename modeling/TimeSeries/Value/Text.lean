import TimeSeries.Point.Precision
import TimeSeries.Text.Utf8
import TimeSeries.Time.Rfc3339
import TimeSeries.Value.Basic

/-!
# Values as text

A value has two texts. `display` is for a reader: bare, without a mark of its kind. `literal?` is
the form that the query language reads; `null` has none. Bytes stand in a literal as text, with
malformed places replaced.

A length of time whose nanoseconds exceed 64 bits is displayed as zero and written in a literal as
the largest number of nanoseconds.
-/

namespace TimeSeries.Value

/-- The nanoseconds of a length of time if they fit 64 bits, and `other` if not. -/
def nanosOr (other nanos : Int) : Int := if Timestamp.fitsInt64 nanos then nanos else other

def display : Value → String
  | .string s => s
  | .double x => Number.floatText x
  | .bool b => FieldValue.boolText b
  | .long i => toString i.toInt
  | .unsigned u => toString u.toNat
  | .duration n => toString (nanosOr 0 n) ++ "ns"
  | .binary b => "<binary " ++ toString b.length ++ " bytes>"
  | .time m => m.text
  | .null => "null"

def literal? : Value → Option String
  | .string s => some (Text.quote s)
  | .double x => some (Number.floatLiteral x)
  | .bool b => some (FieldValue.boolText b)
  | .long i => some (toString i.toInt)
  | .unsigned u => some ("uint(v: " ++ toString u.toNat ++ ")")
  | .duration n => some (toString (nanosOr Int64.maxValue.toInt n) ++ "ns")
  | .binary b => some ("bytes(v: " ++ Text.quote (Text.utf8Lossy b) ++ ")")
  | .time m => some m.zuluText
  | .null => none

end TimeSeries.Value
