import TimeSeries.ConfigError
import TimeSeries.Time.Moment

/-!
# Precisions and timestamps

A timestamp is a signed 64-bit number of units, and the precision names the unit. Going from one
precision to another truncates toward zero and stops at the ends of the 64-bit range. The way leads
over nanoseconds, which are counted in signed words of 128 bits.

The timestamp of a moment counts nanoseconds where these fit 64 bits and microseconds, rounded
down, everywhere else.
-/

namespace TimeSeries

/-- The unit of a timestamp. -/
inductive Precision where
  | nanoseconds
  | microseconds
  | milliseconds
  | seconds
  | minutes
  | hours
deriving DecidableEq, Repr, Inhabited

/-- The integer nearest to `n` that fits 64 bits. -/
def clampInt64 (n : Int) : Int64 :=
  Int64.ofInt (max Int64.minValue.toInt (min n Int64.maxValue.toInt))

namespace Precision

def nanos : Precision → Int
  | .nanoseconds => 1
  | .microseconds => 1000
  | .milliseconds => 1000000
  | .seconds => 1000000000
  | .minutes => 60000000000
  | .hours => 3600000000000

def name : Precision → String
  | .nanoseconds => "ns"
  | .microseconds => "us"
  | .milliseconds => "ms"
  | .seconds => "s"
  | .minutes => "m"
  | .hours => "h"

/-- The name of the unit in the address of a write request. -/
def queryParameter : Precision → String
  | .nanoseconds => "n"
  | .microseconds => "u"
  | .milliseconds => "ms"
  | .seconds => "s"
  | .minutes => "m"
  | .hours => "h"

/-- The precision with a name; both spellings of the two finest ones are known. -/
def ofName? : String → Option Precision
  | "ns" => some .nanoseconds
  | "n" => some .nanoseconds
  | "us" => some .microseconds
  | "u" => some .microseconds
  | "ms" => some .milliseconds
  | "s" => some .seconds
  | "m" => some .minutes
  | "h" => some .hours
  | _ => none

def read (s : String) : Except ConfigError Precision :=
  match ofName? s with
  | some p => .ok p
  | none => .error (.unknownPrecision s)

/-- A number as a word of 128 bits. -/
def wide (n : Int) : BitVec 128 := BitVec.ofInt 128 n

/-- A number of units of `p` in nanoseconds. -/
def wideNanos (p : Precision) (value : Int64) : BitVec 128 := wide value.toInt * wide p.nanos

/-- A number of units of `p` as units of `q`, truncated toward zero. -/
def convert (p : Precision) (value : Int64) (q : Precision) : Int64 :=
  clampInt64 ((p.wideNanos value).sdiv (wide q.nanos)).toInt

end Precision

/-- A number of units of time since 1970-01-01T00:00:00. -/
structure Timestamp where
  value : Int64
  precision : Precision
deriving DecidableEq, Repr

namespace Timestamp

def toPrecision (t : Timestamp) (p : Precision) : Int64 := t.precision.convert t.value p

def fitsInt64 (n : Int) : Bool :=
  decide (Int64.minValue.toInt ≤ n) && decide (n ≤ Int64.maxValue.toInt)

def ofMoment (m : Moment) : Timestamp :=
  if fitsInt64 m.unixNanos then ⟨Int64.ofInt m.unixNanos, .nanoseconds⟩
  else ⟨Int64.ofInt m.unixMicros, .microseconds⟩

end Timestamp

end TimeSeries
