import TimeSeries.Point.Field
import TimeSeries.Time.Moment

/-!
# Values

A value is what a cell of a response or a literal of a query holds. Beside the kinds of field
values there are lengths of time, bytes, moments and the absence of a value, `null`.

`Value.same` is the equality of values as the domain has it: NaN is the same as NaN, the two zeros
are the same, and two moments are the same when they are the same instant.
-/

namespace TimeSeries

/-- A value of a cell or of a literal. -/
inductive Value where
  | string (s : String)
  | double (x : Float)
  | bool (b : Bool)
  | long (i : Int64)
  | unsigned (u : UInt64)
  | duration (nanos : Int)
  | binary (bytes : List UInt8)
  | time (m : Moment)
  | null
deriving DecidableEq

namespace Value

def ofField : FieldValue → Value
  | .bool b => .bool b
  | .integer i => .long i
  | .unsigned u => .unsigned u
  | .float x => .double x
  | .string s => .string s

def isNull : Value → Bool
  | .null => true
  | _ => false

def asString? : Value → Option String
  | .string s => some s
  | _ => none

/-- The floating point number, if the value is one. -/
def asDouble? : Value → Option Float
  | .double x => some x
  | _ => none

/-- The truth value, if the value is one. -/
def asBool? : Value → Option Bool
  | .bool b => some b
  | _ => none

/-- The signed integer, if the value is one. -/
def asLong? : Value → Option Int64
  | .long i => some i
  | _ => none

/-- The unsigned integer, if the value is one. -/
def asUnsigned? : Value → Option UInt64
  | .unsigned u => some u
  | _ => none

/-- The nanoseconds of the length of time, if the value is one. -/
def asDuration? : Value → Option Int
  | .duration n => some n
  | _ => none

/-- The whole seconds of the length of time, truncated toward zero, if the value is one. -/
def asSeconds? (v : Value) : Option Int := v.asDuration?.map fun n => Int.tdiv n 1000000000

def asBinary? : Value → Option (List UInt8)
  | .binary b => some b
  | _ => none

def asTime? : Value → Option Moment
  | .time m => some m
  | _ => none

/-- The floats are equal, or neither is a number. -/
def sameDouble (x y : Float) : Bool := x == y || (x.isNaN && y.isNaN)

def same : Value → Value → Bool
  | .string a, .string b => a == b
  | .double a, .double b => sameDouble a b
  | .bool a, .bool b => a == b
  | .long a, .long b => a == b
  | .unsigned a, .unsigned b => a == b
  | .duration a, .duration b => a == b
  | .binary a, .binary b => a == b
  | .time a, .time b => a.sameInstant b
  | .null, .null => true
  | _, _ => false

/-- The value is what the field holds: the kinds correspond and the contents are equal. NaN equals
nothing here. -/
def matchesField : Value → FieldValue → Bool
  | .bool a, .bool b => a == b
  | .long a, .integer b => a == b
  | .unsigned a, .unsigned b => a == b
  | .double a, .float b => a == b
  | .string a, .string b => a == b
  | _, _ => false

end Value

end TimeSeries
