import TimeSeries.Number.Shortest
import TimeSeries.Text.Escape

/-!
# Field values

A field of a point holds a value of one of five kinds. On the wire the kind shows in the written
form: `i` behind a signed integer, `u` behind an unsigned one, a point in a float, quotes around a
string. Infinities and NaN have no written form on the wire.
-/

namespace TimeSeries

/-- The value of a field. -/
inductive FieldValue where
  | bool (b : Bool)
  | integer (i : Int64)
  | unsigned (u : UInt64)
  | float (x : Float)
  | string (s : String)
deriving DecidableEq

namespace FieldValue

def boolText (b : Bool) : String := if b then "true" else "false"

/-- The value as a reader sees it, without a mark of its kind. -/
def display : FieldValue → String
  | .bool b => boolText b
  | .integer i => toString i.toInt
  | .unsigned u => toString u.toNat
  | .float x => Number.floatText x
  | .string s => s

/-- The value can be written on the wire. -/
def isWritable : FieldValue → Bool
  | .float x => x.isFinite
  | _ => true

def lineText : FieldValue → String
  | .bool b => boolText b
  | .integer i => toString i.toInt ++ "i"
  | .unsigned u => toString u.toNat ++ "u"
  | .float x => Number.floatLiteral x
  | .string s => Text.quote s

end FieldValue

end TimeSeries
