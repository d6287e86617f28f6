import TimeSeries.Number.Integer

/-!
# Lengths of time as text

A length of time such as `1h30m` or `-1.5s` is an optional sign in front of `0` alone or of one or
more parts, each of them a number with an optional fraction and a unit. It is read as a number of
nanoseconds.

An integer may not exceed `2 ^ 62` nanoseconds in its unit, and the sum has to fit 63 bits. The
fraction is multiplied in double precision and truncated; its digits stop counting when their value
exceeds `2 ^ 62 / 10`.

A unit ends before the next digit or point. Its end is counted in characters but taken as a number
of bytes. For ASCII that is the same. Otherwise the place may be inside a character or past the
end, and then reading cannot go on at all, which is the fault `cut`.
-/

namespace TimeSeries

/-- Why a text is not a length of time. -/
inductive SpanFault where
  /-- The text is not of the required form or too large. -/
  | invalid
  /-- The end of a unit falls inside a character. -/
  | cut
deriving DecidableEq, Repr

namespace Span

/-- The largest number of nanoseconds of a part's integer. -/
def limit : Nat := Nat.pow 2 62

/-- The digits in front of the point, and what follows them. -/
def readInteger : (acc : Nat) → List Char → Except SpanFault (Nat × List Char)
  | acc, [] => .ok (acc, [])
  | acc, c :: rest =>
    match Number.digit? c with
    | none => .ok (acc, c :: rest)
    | some d => if limit / 10 < acc then .error .invalid else readInteger (acc * 10 + d) rest

/-- The value of the digits behind the point, as far as they count, and how many count. -/
def fractionValue : (acc count : Nat) → List Char → Nat × Nat
  | acc, count, [] => (acc, count)
  | acc, count, c :: rest =>
    if limit / 10 < acc then (acc, count)
    else fractionValue (acc * 10 + (c.toNat - 48)) (count + 1) rest

def unitNanos? (unit : List Char) : Option Nat :=
  match String.ofList unit with
  | "ns" => some 1
  | "us" => some 1000
  | "ms" => some 1000000
  | "s" => some 1000000000
  | "m" => some 60000000000
  | "h" => some 3600000000000
  | _ => none

def isUnitChar (c : Char) : Bool := !(Number.isDigit c || c == '.')

/-- A number of bytes is a whole number of characters from the front. -/
def onBoundary : Nat → List Char → Bool
  | 0, _ => true
  | _ + 1, [] => false
  | n + 1, c :: rest => decide (c.utf8Size ≤ n + 1) && onBoundary (n + 1 - c.utf8Size) rest

/-- The nanoseconds of the unit in front of `rest`. -/
def readUnit (unit rest : List Char) : Except SpanFault Nat :=
  if unit.all fun c => decide (c.utf8Size = 1) then
    match unitNanos? unit with
    | some n => .ok n
    | none => .error .invalid
  else if rest.isEmpty || !onBoundary unit.length unit then .error .cut
  else .error .invalid

/-- The nanoseconds of a fraction of a unit. -/
def fractionNanos (value count unit : Nat) : Nat :=
  let ten := (10 : UInt64).toFloat
  let scale := (List.replicate count ten).foldl (· * ·) (1 : UInt64).toFloat
  if value = 0 then 0
  else ((UInt64.ofNat value).toFloat * ((UInt64.ofNat unit).toFloat / scale)).toUInt64.toNat

def readPart (l : List Char) : Except SpanFault (Nat × List Char) := do
  let (integer, rest) ← readInteger 0 l
  let (fraction, rest') : List Char × List Char :=
    match rest with
    | '.' :: more => (more.takeWhile Number.isDigit, more.dropWhile Number.isDigit)
    | rest => ([], rest)
  if !(l.head?.any Number.isDigit) && fraction.isEmpty then .error .invalid
  else
    let unit := rest'.takeWhile isUnitChar
    let rest := rest'.dropWhile isUnitChar
    if unit.isEmpty then .error .invalid
    else
      let nanos ← readUnit unit rest
      if limit / nanos < integer then .error .invalid
      else
        let (value, count) := fractionValue 0 0 fraction
        .ok (integer * nanos + fractionNanos value count nanos, rest)

/-- The sum of all parts. Every part consumes at least one character of the text, whose length
is the bound. -/
def readParts : (bound total : Nat) → List Char → Except SpanFault Nat
  | _, total, [] => .ok total
  | 0, _, _ :: _ => .error .invalid
  | bound + 1, total, l => do
    let (nanos, rest) ← readPart l
    if Nat.pow 2 63 ≤ total + nanos then .error .invalid
    else readParts bound (total + nanos) rest

/-- The nanoseconds of a length of time without its sign. -/
def readMagnitude (l : List Char) : Except SpanFault Nat :=
  if l = ['0'] then .ok 0
  else if l.isEmpty then .error .invalid
  else readParts l.length 0 l

def read (s : String) : Except SpanFault Int :=
  match s.toList with
  | '-' :: l => (readMagnitude l).map fun n => -(n : Int)
  | '+' :: l => (readMagnitude l).map fun n => (n : Int)
  | l => (readMagnitude l).map fun n => (n : Int)

end Span

end TimeSeries
