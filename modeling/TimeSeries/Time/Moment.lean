/-!
# Moments

A moment is a second of universal time, a number of nanoseconds into it and the distance of the
local clock from universal time. A leap second is part of the second before it: its nanoseconds
run from one to two thousand million. Two moments are the same instant when second and nanoseconds
agree, wherever their clocks stand.

The distance is a whole number of minutes, as it is in every time that is read from RFC 3339 text.
Only such times are meant: a clock that is some seconds more ahead, whose offset the text would
have to round, is not covered.
-/

namespace TimeSeries

/-- A point in time together with the offset of a local clock. -/
structure Moment where
  /-- The seconds of universal time since 1970-01-01T00:00:00. -/
  second : Int
  /-- The nanoseconds into that second; from `10 ^ 9` on they belong to a leap second. -/
  nano : Nat
  /-- The minutes that the local clock is ahead of universal time, always whole ones. -/
  offset : Int
deriving DecidableEq, Repr

namespace Moment

def sameInstant (a b : Moment) : Bool := a.second == b.second && a.nano == b.nano

def unixNanos (m : Moment) : Int := m.second * 1000000000 + m.nano

def unixMicros (m : Moment) : Int := m.second * 1000000 + m.nano / 1000

end Moment

end TimeSeries
