import TimeSeries.Number.Binary
import TimeSeries.Number.Integer

/-!
# Reading floating point numbers

A numeral is an optional sign in front of one of the words `inf`, `infinity` and `nan` in any case,
or in front of digits with at most one point among, before or behind them and an optional
exponent. It denotes `± digits · 10 ^ exponent` exactly, and its float is the one nearest to that
number.
-/

namespace TimeSeries.Number

/-- What a written number denotes. -/
inductive Numeral where
  | finite (negative : Bool) (digits : Nat) (exponent : Int)
  | infinite (negative : Bool)
  /-- Not a number. -/
  | nan
deriving DecidableEq, Repr

namespace Numeral

def lower (l : List Char) : List Char :=
  l.map fun c => if 'A' ≤ c ∧ c ≤ 'Z' then Char.ofNat (c.toNat + 32) else c

/-- The exponent behind the significand; nothing may follow it. -/
def readExponent? : List Char → Option Int
  | [] => some 0
  | c :: rest =>
    if c = 'e' ∨ c = 'E' then
      let number (l : List Char) : Option Nat :=
        if l.isEmpty || !l.all isDigit then none else some (valueOfDigits l)
      match rest with
      | '-' :: l => (number l).map fun n => -(n : Int)
      | '+' :: l => (number l).map fun n => (n : Int)
      | l => (number l).map fun n => (n : Int)
    else none

/-- The digits and the exponent of an unsigned number. -/
def readDigits? (l : List Char) : Option (Nat × Int) :=
  let whole := l.takeWhile isDigit
  let rest := l.dropWhile isDigit
  let (fraction, rest) :=
    match rest with
    | '.' :: more => (more.takeWhile isDigit, more.dropWhile isDigit)
    | rest => ([], rest)
  if whole.isEmpty && fraction.isEmpty then none
  else
    (readExponent? rest).map fun e =>
      (valueOfDigits (whole ++ fraction), e - (fraction.length : Int))

def readUnsigned? (negative : Bool) (l : List Char) : Option Numeral :=
  let word := String.ofList (lower l)
  if word = "inf" ∨ word = "infinity" then some (.infinite negative)
  else if word = "nan" then some .nan
  else (readDigits? l).map fun p => .finite negative p.1 p.2

def read? (s : String) : Option Numeral :=
  match s.toList with
  | '-' :: l => readUnsigned? true l
  | '+' :: l => readUnsigned? false l
  | l => readUnsigned? false l

/-- The magnitude nearest to `digits · 10 ^ exponent`. Far outside of every format the power of ten
is not computed. -/
def magnitude (f : Format) (digits : Nat) (exponent : Int) : Nat :=
  let size : Int := (Nat.toDigits 10 digits).length + exponent
  if digits = 0 ∨ size < -400 then 0
  else if 400 < size then f.infinity
  else if 0 ≤ exponent then f.round (digits * Nat.pow 10 exponent.toNat) 1
  else f.round digits (Nat.pow 10 (-exponent).toNat)

/-- The double precision float nearest to a numeral. -/
def toFloat : Numeral → Float
  | .finite negative digits exponent =>
    floatOfMagnitude negative (magnitude binary64 digits exponent)
  | .infinite negative => floatOfMagnitude negative binary64.infinity
  | .nan => Float.ofBits 0x7FF8000000000000

/-- The single precision number nearest to a numeral, as a float. -/
def toSingle : Numeral → Float
  | .finite negative digits exponent =>
    floatOfMagnitude negative (binary64.ofFormat binary32 (magnitude binary32 digits exponent))
  | .infinite negative => floatOfMagnitude negative binary64.infinity
  | .nan => Float.ofBits 0x7FF8000000000000

end Numeral

def readFloat? (s : String) : Option Float := (Numeral.read? s).map Numeral.toFloat

/-- The single precision number a text denotes, as a float. -/
def readSingle? (s : String) : Option Float := (Numeral.read? s).map Numeral.toSingle

end TimeSeries.Number
