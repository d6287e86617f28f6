import TimeSeries.Number.Binary

/-!
# The shortest decimal text of a float

Among the decimal numbers that are read back as a given float, the shortest ones are those with the
fewest digits, and of these the nearest to the float is written. The numbers that read back form an
interval around the float that reaches half way to its neighbours; its ends belong to it when the
significand is even.

The interval is scaled to natural numbers. If some multiple of `10 ^ k` lies in it, then so does one
of the two multiples around the float itself, so the search looks at these two only, from the
largest power of ten down.

The text is positional, never with an exponent.
-/

namespace TimeSeries.Number

/-- A number `value` between the ends of the interval of those that round to it. -/
structure Interval where
  /-- The number itself. -/
  value : Nat
  low : Nat
  high : Nat
  closed : Bool
deriving DecidableEq, Repr

namespace Interval

def holds (i : Interval) (n : Nat) : Bool :=
  if i.closed then decide (i.low ≤ n) && decide (n ≤ i.high)
  else decide (i.low < n) && decide (n < i.high)

/-- The nearer one of the multiples of `unit` around the value that lies in the interval; of two
equally near ones the upper. -/
def multiple? (i : Interval) (unit : Nat) : Option Nat :=
  let below := i.value / unit * unit
  let above := below + unit
  match i.holds below, i.holds above with
  | true, true => some (if i.value - below < above - i.value then below else above)
  | true, false => some below
  | false, true => some above
  | false, false => none

/-- The number of the interval with the fewest digits as `d · 10 ^ k`, from a largest `k` down. -/
def shortest (i : Interval) : Nat → Nat × Nat
  | 0 => (i.value, 0)
  | k + 1 =>
    match i.multiple? (Nat.pow 10 (k + 1)) with
    | some n => (n / Nat.pow 10 (k + 1), k + 1)
    | none => i.shortest k

end Interval

/-- The interval of a finite positive magnitude, and the power of ten that it is scaled by. The
lower neighbour of a power of two is only half as far away as the upper one. -/
def Format.interval (f : Format) (bits : Nat) : Interval × Int :=
  let p := f.parts bits
  let e := p.2 - 2
  let factor := if 0 ≤ e then Nat.pow 2 e.toNat else Nat.pow 5 (-e).toNat
  let narrow := decide (p.1 = Nat.pow 2 (f.precision - 1)) && decide (f.least < p.2)
  (⟨4 * p.1 * factor, (4 * p.1 - if narrow then 1 else 2) * factor, (4 * p.1 + 2) * factor,
    p.1 % 2 == 0⟩, min e 0)

/-- A number without its trailing zeros, and how many were dropped. -/
def dropZeros : (fuel n : Nat) → Nat × Nat
  | 0, n => (n, 0)
  | fuel + 1, n =>
    if n % 10 = 0 then
      let r := dropZeros fuel (n / 10)
      (r.1, r.2 + 1)
    else (n, 0)

/-- The digits and the exponent of the shortest decimal number for a positive magnitude. -/
def Format.shortest (f : Format) (bits : Nat) : Nat × Int :=
  let i := f.interval bits
  let r := i.1.shortest ((Nat.toDigits 10 i.1.value).length - 1)
  let s := dropZeros 20 r.1
  (s.1, i.2 + r.2 + s.2)

/-- The positional text of `digits · 10 ^ exponent`. -/
def positional (digits : Nat) (exponent : Int) : String :=
  let l := Nat.toDigits 10 digits
  if 0 ≤ exponent then String.ofList (l ++ List.replicate exponent.toNat '0')
  else
    let places := (-exponent).toNat
    if l.length ≤ places then
      String.ofList ('0' :: '.' :: (List.replicate (places - l.length) '0' ++ l))
    else
      String.ofList (l.take (l.length - places) ++ '.' :: l.drop (l.length - places))

/-- The text of a magnitude in double precision. -/
def magnitudeText (bits : Nat) : String :=
  if bits = 0 then "0"
  else if bits = binary64.infinity then "inf"
  else
    let s := binary64.shortest bits
    positional s.1 s.2

/-- The text of a float: the shortest one that reads back, without a point for whole numbers. -/
def floatText (x : Float) : String :=
  if x.isNaN then "NaN"
  else (if isNegative x then "-" else "") ++ magnitudeText (magnitudeBits x)

/-- The text of a float as a literal: a finite whole number is followed by `.0`. -/
def floatLiteral (x : Float) : String :=
  let s := floatText x
  if x.isFinite && !s.toList.contains '.' then s ++ ".0" else s

end TimeSeries.Number
