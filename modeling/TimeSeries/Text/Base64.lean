/-!
# Base64

Bytes are written as groups of four symbols of the standard alphabet, the last group filled up with
one or two equals signs. The reader accepts exactly what the writer of the format produces, so the
filling is required and the unused bits of the last symbol have to be zero.

Faults carry the byte and where it stands. Every group but the last is read first, then the last
one, which may be incomplete. Before all else a byte that no group can take is reported when it is
the single one left over at the end.
-/

namespace TimeSeries

/-- Why a text is not base64. -/
inductive Base64Fault where
  /-- A byte is no symbol, or an equals sign that is out of place. -/
  | symbol (byte : UInt8) (offset : Nat)
  /-- The last symbol has bits that belong to no byte. -/
  | lastSymbol (byte : UInt8) (offset : Nat)
  | length (n : Nat)
  /-- The last group is not filled up. -/
  | padding
deriving DecidableEq, Repr

def Base64Fault.message : Base64Fault → String
  | .symbol b n => "Invalid symbol " ++ toString b.toNat ++ ", offset " ++ toString n ++ "."
  | .lastSymbol b n =>
    "Invalid last symbol " ++ toString b.toNat ++ ", offset " ++ toString n ++ "."
  | .length n => "Invalid input length: " ++ toString n
  | .padding => "Invalid padding"

namespace Base64

/-- The byte that fills up the last group, an equals sign. -/
def filler : UInt8 := 0x3D

def symbol? (b : UInt8) : Option Nat :=
  if 0x41 ≤ b ∧ b ≤ 0x5A then some (b.toNat - 0x41)
  else if 0x61 ≤ b ∧ b ≤ 0x7A then some (b.toNat - 0x61 + 26)
  else if 0x30 ≤ b ∧ b ≤ 0x39 then some (b.toNat - 0x30 + 52)
  else if b = 0x2B then some 62
  else if b = 0x2F then some 63
  else none

/-- The values of symbols, none of which may be a filler. -/
def symbols : (offset : Nat) → List UInt8 → Except Base64Fault (List Nat)
  | _, [] => .ok []
  | offset, b :: rest =>
    match symbol? b with
    | none => .error (.symbol b offset)
    | some v => (symbols (offset + 1) rest).map (v :: ·)

def group (a b c d : Nat) : List UInt8 :=
  [UInt8.ofNat (a * 4 + b / 16), UInt8.ofNat (b % 16 * 16 + c / 4), UInt8.ofNat (c % 4 * 64 + d)]

def groups : List Nat → List UInt8
  | a :: b :: c :: d :: rest => group a b c d ++ groups rest
  | _ => []

/-- The values of the symbols of the last group and the number of fillers behind them. A filler
needs two symbols in front of it, and only fillers may follow it. -/
def lastSymbols : (offset index fillers : Nat) → List UInt8 →
    Except Base64Fault (List Nat × Nat)
  | _, _, fillers, [] => .ok ([], fillers)
  | offset, index, fillers, b :: rest =>
    if b = filler then
      if index < 2 then .error (.symbol b (offset + index))
      else lastSymbols offset (index + 1) (fillers + 1) rest
    else if 0 < fillers then .error (.symbol filler (offset + index - fillers))
    else
      match symbol? b with
      | none => .error (.symbol b (offset + index))
      | some v =>
        (lastSymbols offset (index + 1) fillers rest).map fun r => (v :: r.1, r.2)

/-- The bytes of the last group, which begins at `offset`. -/
def lastGroup (offset : Nat) (l : List UInt8) : Except Base64Fault (List UInt8) := do
  let (values, fillers) ← lastSymbols offset 0 0 l
  let symbolAt (i : Nat) : UInt8 := (l[i]?).getD 0
  if values.length < 2 then .error (.length (offset + values.length))
  else if (values.length + fillers) % 4 ≠ 0 then .error .padding
  else
    match values with
    | [a, b] =>
      if b % 16 ≠ 0 then .error (.lastSymbol (symbolAt 1) (offset + 1))
      else .ok ((group a b 0 0).take 1)
    | [a, b, c] =>
      if c % 4 ≠ 0 then .error (.lastSymbol (symbolAt 2) (offset + 2))
      else .ok ((group a b c 0).take 2)
    | values => .ok (groups values)

/-- The bytes that a text of symbols stands for. -/
def decode (l : List UInt8) : Except Base64Fault (List UInt8) :=
  if l.isEmpty then .ok []
  else
    let front := if l.length % 4 = 0 then l.length - 4 else l.length - l.length % 4
    let stray : Option UInt8 := do
      let b ← l.getLast?
      if l.length % 4 = 1 ∧ b ≠ filler ∧ symbol? b = none then some b else none
    match stray with
    | some b => .error (.symbol b (l.length - 1))
    | none => do
      let values ← symbols 0 (l.take front)
      let last ← lastGroup front (l.drop front)
      .ok (groups values ++ last)

end Base64

end TimeSeries
