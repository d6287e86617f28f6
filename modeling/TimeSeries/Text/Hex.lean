/-!
# Hexadecimal digits

The digits from ten on are the letters from `a` to `f`, in either case when they are read.
-/

namespace TimeSeries.Text

def hexValue? (c : Char) : Option Nat :=
  if '0' ≤ c ∧ c ≤ '9' then some (c.toNat - 48)
  else if 'a' ≤ c ∧ c ≤ 'f' then some (c.toNat - 87)
  else if 'A' ≤ c ∧ c ≤ 'F' then some (c.toNat - 55) else none

/-- The digit of a value below 16, with a small letter. -/
def hexDigit (n : Nat) : Char := Nat.digitChar n

/-- The digit of a value below 16, with a capital. -/
def capitalHexDigit (n : Nat) : Char := (hexDigit n).toUpper

/-- The two digits of a byte, with small letters. -/
def hexByte (b : UInt8) : List Char := [hexDigit (b.toNat / 16), hexDigit (b.toNat % 16)]

/-- The bytes written as pairs of digits; what is no such pair ends them. -/
def hexBytes : List Char → List UInt8
  | a :: b :: rest =>
    match hexValue? a, hexValue? b with
    | some m, some n => UInt8.ofNat (m * 16 + n) :: hexBytes rest
    | _, _ => []
  | _ => []

end TimeSeries.Text
