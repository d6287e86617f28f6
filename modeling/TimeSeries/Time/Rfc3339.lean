import TimeSeries.Time.Calendar
import TimeSeries.Time.Moment
import TimeSeries.Number.Integer

/-!
# Times as RFC 3339 text

A time is written `YYYY-MM-DDTHH:MM:SS`, then a fraction of the second if there is one, then the
offset of the local clock.

The reader takes a `T`, a `t` or one space between date and time, `Z` or `z` for the offset zero,
and the minus sign U+2212 beside the hyphen. Second 60 is a leap second at any minute. Fraction
digits behind the ninth are read and forgotten. A text of fewer than 19 bytes has ended too early
whatever stands in it. Otherwise faults are found from left to right, the range of the date behind
its day and the range of the time behind its fraction.

The writer gives the fraction three, six or nine digits, the fewest that are exact, and none when it
is zero.
-/

namespace TimeSeries

/-- Why a text is not a time. -/
inductive TimeFault where
  /-- A number is outside of its range. -/
  | outOfRange
  /-- A character does not belong where it stands. -/
  | invalid
  | tooShort
  | trailing
deriving DecidableEq, Repr

def TimeFault.message : TimeFault → String
  | .outOfRange => "input is out of range"
  | .invalid => "input contains invalid characters"
  | .tooShort => "premature end of input"
  | .trailing => "trailing input"

namespace Moment

/-- Two digits at the head of a text. -/
def twoDigits : List Char → Except TimeFault (Nat × List Char)
  | a :: b :: rest =>
    match Number.digit? a, Number.digit? b with
    | some a, some b => .ok (a * 10 + b, rest)
    | _, _ => .error .invalid
  | _ => .error .invalid

/-- A character of a given class at the head of a text. -/
def expect (p : Char → Bool) : List Char → Except TimeFault (List Char)
  | c :: rest => if p c then .ok rest else .error .invalid
  | [] => .error .tooShort

def readDate (l : List Char) : Except TimeFault (Date × List Char) := do
  let (century, l) ← twoDigits l
  let (year, l) ← twoDigits l
  let l ← expect (· == '-') l
  let (month, l) ← twoDigits l
  let l ← expect (· == '-') l
  let (day, l) ← twoDigits l
  let date : Date := ⟨(century * 100 + year : Nat), month, day⟩
  if date.isValid then .ok (date, l) else .error .outOfRange

/-- The nanoseconds of a fraction, at least one digit behind the point. -/
def readFraction : List Char → Except TimeFault (Nat × List Char)
  | '.' :: l =>
    let digits := l.takeWhile Number.isDigit
    match l, digits with
    | [], _ => .error .tooShort
    | _, [] => .error .invalid
    | _, digits =>
      let kept := digits.take 9
      .ok (Number.valueOfDigits kept * Nat.pow 10 (9 - kept.length), l.dropWhile Number.isDigit)
  | l => .ok (0, l)

/-- Hours, minutes, seconds and fraction as seconds of the day and nanoseconds. -/
def readClock (l : List Char) : Except TimeFault (Nat × Nat × List Char) := do
  let (hour, l) ← twoDigits l
  let l ← expect (· == ':') l
  let (minute, l) ← twoDigits l
  let l ← expect (· == ':') l
  let (second, l) ← twoDigits l
  let (nano, l) ← readFraction l
  let (second, nano) := if second = 60 then (59, nano + 1000000000) else (second, nano)
  if hour < 24 ∧ minute < 60 ∧ second < 60 then
    .ok (hour * 3600 + minute * 60 + second, nano, l)
  else .error .outOfRange

/-- Two digits of an offset; the text may end before them. -/
def offsetDigits : List Char → Except TimeFault (Nat × List Char)
  | [] => .error .tooShort
  | [c] => if c.utf8Size = 1 then .error .tooShort else .error .invalid
  | l => twoDigits l

/-- The offset of the local clock in minutes. -/
def readOffset : List Char → Except TimeFault (Int × List Char)
  | [] => .error .tooShort
  | c :: l =>
    if c = 'Z' ∨ c = 'z' then .ok (0, l)
    else if c = '+' ∨ c = '-' ∨ c = '\u2212' then do
      let (hours, l) ← offsetDigits l
      let l ← expect (· == ':') l
      let (minutes, l) ← offsetDigits l
      if minutes < 60 then
        let offset : Int := hours * 60 + minutes
        .ok (if c = '+' then offset else -offset, l)
      else .error .outOfRange
    else .error .invalid

def read (s : String) : Except TimeFault Moment :=
  if s.utf8ByteSize < 19 then .error .tooShort
  else do
    let (date, l) ← readDate s.toList
    let l ← expect (fun c => c == 'T' || c == 't' || c == ' ') l
    let (clock, nano, l) ← readClock l
    let (offset, l) ← readOffset l
    if l.isEmpty then
      if offset.natAbs < 1440 then
        .ok ⟨date.toDays * 86400 + clock - offset * 60, nano, offset⟩
      else .error .outOfRange
    else .error .trailing

/-- A number with zeros in front up to a width. -/
def padded (width n : Nat) : String :=
  let l := Nat.toDigits 10 n
  String.ofList (List.replicate (width - l.length) '0' ++ l)

/-- A year with at least four digits, with a sign outside of the years 0 to 9999. -/
def yearText (year : Int) : String :=
  if year < 0 then "-" ++ padded 4 year.natAbs
  else if 9999 < year then "+" ++ padded 4 year.natAbs
  else padded 4 year.natAbs

/-- The fraction of a second with its point, empty for none. -/
def fractionText (nano : Nat) : String :=
  if nano = 0 then ""
  else if nano % 1000000 = 0 then "." ++ padded 3 (nano / 1000000)
  else if nano % 1000 = 0 then "." ++ padded 6 (nano / 1000)
  else "." ++ padded 9 nano

def offsetText (offset : Int) : String :=
  let n := offset.natAbs
  (if offset < 0 then "-" else "+") ++ padded 2 (n / 60) ++ ":" ++ padded 2 (n % 60)

/-- The local date and time without the offset. -/
def localText (m : Moment) : String :=
  let clock := m.second + m.offset * 60
  let date := Date.ofDays (Int.fdiv clock 86400)
  let second := (Int.fmod clock 86400).toNat
  let leap := if 1000000000 ≤ m.nano then 1 else 0
  yearText date.year ++ "-" ++ padded 2 date.month ++ "-" ++ padded 2 date.day ++ "T" ++
    padded 2 (second / 3600) ++ ":" ++ padded 2 (second / 60 % 60) ++ ":" ++
    padded 2 (second % 60 + leap) ++ fractionText (m.nano - leap * 1000000000)

/-- The text of a moment with a numeric offset. -/
def text (m : Moment) : String := m.localText ++ offsetText m.offset

/-- The text of a moment with `Z` for the offset zero. -/
def zuluText (m : Moment) : String :=
  m.localText ++ if m.offset = 0 then "Z" else offsetText m.offset

end Moment

end TimeSeries
