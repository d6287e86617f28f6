/-!
# Durations of the query language

A duration is a signed amount of one unit, such as `-1h` or `30s`. Half days have no unit of their
own in the language and are written as hours, twelve for one; that product stops at the ends of the
64-bit range.
-/

namespace TimeSeries.Flux

/-- The unit of a duration. -/
inductive TimeUnit where
  | nanos
  | micros
  | millis
  | seconds
  | minutes
  | hours
  /-- Twelve hours. -/
  | halfDays
  | days
  | weeks
deriving DecidableEq, Repr

def TimeUnit.name : TimeUnit → String
  | .nanos => "nanos"
  | .micros => "micros"
  | .millis => "millis"
  | .seconds => "seconds"
  | .minutes => "minutes"
  | .hours => "hours"
  | .halfDays => "half_days"
  | .days => "days"
  | .weeks => "weeks"

def TimeUnit.all : List TimeUnit :=
  [.nanos, .micros, .millis, .seconds, .minutes, .hours, .halfDays, .days, .weeks]

/-- How a unit is written behind an amount. -/
def TimeUnit.suffix : TimeUnit → String
  | .nanos => "ns"
  | .micros => "us"
  | .millis => "ms"
  | .seconds => "s"
  | .minutes => "m"
  | .hours => "h"
  | .halfDays => "h"
  | .days => "d"
  | .weeks => "w"

/-- An amount of a unit. -/
structure Duration where
  amount : Int64
  unit : TimeUnit
deriving DecidableEq, Repr

namespace Duration

/-- The amount as it is written, in units of the suffix. -/
def writtenAmount (d : Duration) : Int :=
  match d.unit with
  | .halfDays => max Int64.minValue.toInt (min (d.amount.toInt * 12) Int64.maxValue.toInt)
  | _ => d.amount.toInt

def text (d : Duration) : String := toString d.writtenAmount ++ d.unit.suffix

end Duration

end TimeSeries.Flux
