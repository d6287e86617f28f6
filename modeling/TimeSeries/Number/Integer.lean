/-!
# Reading integers

A written integer is a run of decimal digits behind an optional sign. It is read from left to
right and the first fault counts: a character that is no digit, or a digit that takes the value out
of range. A sign without digits is an invalid digit. A minus sign belongs to the signed type only.
-/

namespace TimeSeries

/-- Why a text is not an integer of the wanted range. -/
inductive IntegerFault where
  /-- A character is not a decimal digit, or there is none. -/
  | invalidDigit
  /-- The value is above the largest one. -/
  | tooLarge
  /-- The value is below the smallest one. -/
  | tooSmall
deriving DecidableEq, Repr

def IntegerFault.message : IntegerFault → String
  | .invalidDigit => "invalid digit found in string"
  | .tooLarge => "number too large to fit in target type"
  | .tooSmall => "number too small to fit in target type"

namespace Number

def digit? (c : Char) : Option Nat :=
  if '0' ≤ c ∧ c ≤ '9' then some (c.toNat - 48) else none

def isDigit (c : Char) : Bool := decide ('0' ≤ c) && decide (c ≤ '9')

/-- The value of digits read behind a value `acc`, at most `limit`. -/
def magnitude (limit : Nat) (excess : IntegerFault) :
    (acc : Nat) → List Char → Except IntegerFault Nat
  | acc, [] => .ok acc
  | acc, c :: rest =>
    match digit? c with
    | none => .error .invalidDigit
    | some d =>
      if limit < acc * 10 + d then .error excess
      else magnitude limit excess (acc * 10 + d) rest

def readDigits (limit : Nat) (excess : IntegerFault) (l : List Char) : Except IntegerFault Nat :=
  if l.isEmpty then .error .invalidDigit else magnitude limit excess 0 l

/-- The integer a text denotes, by its magnitude and sign. -/
def readSigned (l : List Char) : Except IntegerFault Int :=
  match l with
  | '-' :: rest => (readDigits (Nat.pow 2 63) .tooSmall rest).map fun n => -(n : Int)
  | '+' :: rest => (readDigits (Nat.pow 2 63 - 1) .tooLarge rest).map fun n => (n : Int)
  | l => (readDigits (Nat.pow 2 63 - 1) .tooLarge l).map fun n => (n : Int)

def readUnsigned (l : List Char) : Except IntegerFault Nat :=
  match l with
  | '+' :: rest => readDigits (Nat.pow 2 64 - 1) .tooLarge rest
  | l => readDigits (Nat.pow 2 64 - 1) .tooLarge l

def readInt64 (s : String) : Except IntegerFault Int64 :=
  (readSigned s.toList).map Int64.ofInt

def readUInt64 (s : String) : Except IntegerFault UInt64 :=
  (readUnsigned s.toList).map UInt64.ofNat

/-- The value of a run of digits, whatever its length. -/
def valueOfDigits (l : List Char) : Nat :=
  l.foldl (fun acc c => acc * 10 + (c.toNat - 48)) 0

end Number

end TimeSeries
