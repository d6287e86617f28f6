/-!
# Binary floating point formats

A binary format is fixed by its precision `p`, the exponent of its smallest positive number and the
number of exponents. A magnitude is held in one natural number: the exponent counted from the
smallest one stands above the `p - 1` low bits of the significand. With this layout the
magnitude of `m · 2 ^ e` is `(e - least) · 2 ^ (p - 1) + m` for subnormal and normal numbers alike,
and a significand that is rounded up to `2 ^ p` carries into the exponent by itself.

`Format.round` gives the magnitude nearest to a ratio of natural numbers; of two equally near ones
it takes the one with the even significand, and from half a unit above the largest number on it
gives infinity.
-/

namespace TimeSeries.Number

/-- A binary floating point format. -/
structure Format where
  /-- The number of bits of a significand. -/
  precision : Nat
  /-- The exponent of the smallest positive number. -/
  least : Int
  /-- The exponent field of infinity. -/
  top : Nat
deriving DecidableEq, Repr

/-- Double precision: 53 bits, smallest number `2 ^ (-1074)`. -/
def binary64 : Format := ⟨53, -1074, 2047⟩

/-- Single precision: 24 bits, smallest number `2 ^ (-149)`. -/
def binary32 : Format := ⟨24, -149, 255⟩

/-- The quotient of two natural numbers rounded to the nearest one, ties to even. -/
def divTiesToEven (num den : Nat) : Nat :=
  let q := num / den
  let r := num % den
  if 2 * r < den then q else if den < 2 * r then q + 1 else q + q % 2

namespace Format

def infinity (f : Format) : Nat := f.top * Nat.pow 2 (f.precision - 1)

/-- The significand and the exponent of a finite magnitude. -/
def parts (f : Format) (bits : Nat) : Nat × Int :=
  let unit := Nat.pow 2 (f.precision - 1)
  let field := bits / unit
  if field = 0 then (bits % unit, f.least)
  else (bits % unit + unit, f.least + (field - 1 : Nat))

/-- Numerator and denominator of `num / den · 2 ^ (-e)`. -/
def scale (num den : Nat) (e : Int) : Nat × Nat :=
  if 0 ≤ e then (num, den * Nat.pow 2 e.toNat) else (num * Nat.pow 2 (-e).toNat, den)

/-- The exponent that puts the significand of `num / den` below `2 ^ p` and, unless the format
ends there, from `2 ^ (p - 1)` on. -/
def exponent (f : Format) (num den : Nat) : Int :=
  let e : Int := (num.log2 : Int) - den.log2 - f.precision
  let s := scale num den e
  max f.least (if s.1 < s.2 * Nat.pow 2 f.precision then e else e + 1)

def round (f : Format) (num den : Nat) : Nat :=
  if num = 0 then 0
  else
    let e := f.exponent num den
    let s := scale num den e
    min f.infinity ((e - f.least).toNat * Nat.pow 2 (f.precision - 1) + divTiesToEven s.1 s.2)

/-- The magnitude in `f` nearest to a finite magnitude of `g`; infinity stays infinity. -/
def ofFormat (f g : Format) (bits : Nat) : Nat :=
  if bits = g.infinity then f.infinity
  else
    let p := g.parts bits
    let s := scale p.1 1 (-p.2)
    f.round s.1 s.2

end Format

/-- The float with the given sign and magnitude. -/
def floatOfMagnitude (negative : Bool) (bits : Nat) : Float :=
  Float.ofBits (UInt64.ofNat (if negative then Nat.pow 2 63 + bits else bits))

/-- The float is below zero or the negative zero. -/
def isNegative (x : Float) : Bool := decide (Nat.pow 2 63 ≤ x.toBits.toNat)

def magnitudeBits (x : Float) : Nat := x.toBits.toNat % Nat.pow 2 63

end TimeSeries.Number
