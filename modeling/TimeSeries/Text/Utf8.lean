/-!
# UTF-8

Bytes are read as UTF-8 in two ways. `utf8Text?` accepts well-formed bytes only and otherwise says
how many bytes in front are well-formed. `utf8Lossy` accepts everything and puts the replacement
character U+FFFD in the place of each longest run of bytes that begins a character without
completing it.

Both walk a machine that is between two characters or in the middle of one; in the middle it knows
how many bytes are still owed and which bytes may come next.
-/

namespace TimeSeries.Text

/-- Where a reader of UTF-8 stands. -/
inductive Utf8State where
  | boundary
  /-- Inside a character: `more + 1` bytes are owed, the next of them from `low` to `high`, and
  the bytes so far contribute `value`. -/
  | inside (more : Nat) (low high : UInt8) (value : Nat)
deriving DecidableEq, Repr

/-- What one byte does to the reader. -/
inductive Utf8Step where
  | char (c : Char)
  /-- The byte begins or continues a character. -/
  | more (s : Utf8State)
  /-- No well-formed text goes on with this byte. -/
  | refuse
deriving DecidableEq, Repr

/-- The first byte of a character fixes its length and, against overlong forms, surrogates and
values above U+10FFFF, the range of the second byte. -/
def Utf8Step.first (b : UInt8) : Utf8Step :=
  if b < 0x80 then .char (Char.ofNat b.toNat)
  else if b < 0xC2 then .refuse
  else if b < 0xE0 then .more (.inside 0 0x80 0xBF (b.toNat - 0xC0))
  else if b = 0xE0 then .more (.inside 1 0xA0 0xBF 0)
  else if b = 0xED then .more (.inside 1 0x80 0x9F 0xD)
  else if b < 0xF0 then .more (.inside 1 0x80 0xBF (b.toNat - 0xE0))
  else if b = 0xF0 then .more (.inside 2 0x90 0xBF 0)
  else if b < 0xF4 then .more (.inside 2 0x80 0xBF (b.toNat - 0xF0))
  else if b = 0xF4 then .more (.inside 2 0x80 0x8F 4)
  else .refuse

def Utf8State.step : Utf8State → UInt8 → Utf8Step
  | .boundary, b => Utf8Step.first b
  | .inside more low high value, b =>
    if low ≤ b ∧ b ≤ high then
      let value := value * 64 + (b.toNat - 0x80)
      match more with
      | 0 => .char (Char.ofNat value)
      | more + 1 => .more (.inside more 0x80 0xBF value)
    else .refuse

/-- The number of bytes that stand in front of the first malformed place. `taken` bytes were
complete characters, `held` more belong to the character being read. -/
def utf8ValidLength : Utf8State → (taken held : Nat) → List UInt8 → Nat
  | _, taken, _, [] => taken
  | s, taken, held, b :: rest =>
    match s.step b with
    | .char _ => utf8ValidLength .boundary (taken + held + 1) 0 rest
    | .more s => utf8ValidLength s taken (held + 1) rest
    | .refuse => taken

/-- The text of well-formed bytes, or the number of well-formed bytes in front. -/
def utf8Text? (bytes : List UInt8) : Except Nat String :=
  match String.fromUTF8? ⟨bytes.toArray⟩ with
  | some s => .ok s
  | none => .error (utf8ValidLength .boundary 0 0 bytes)

def replacement : Char := Char.ofNat 0xFFFD

/-- The characters of any bytes, malformed places replaced. -/
def utf8LossyChars : Utf8State → List UInt8 → List Char
  | .boundary, [] => []
  | .inside .., [] => [replacement]
  | s, b :: rest =>
    match s.step b with
    | .char c => c :: utf8LossyChars .boundary rest
    | .more s => utf8LossyChars s rest
    | .refuse =>
      match s with
      | .boundary => replacement :: utf8LossyChars .boundary rest
      | .inside .. =>
        replacement ::
          match Utf8Step.first b with
          | .char c => c :: utf8LossyChars .boundary rest
          | .more s => utf8LossyChars s rest
          | .refuse => replacement :: utf8LossyChars .boundary rest

/-- The text of any bytes, malformed places replaced. -/
def utf8Lossy (bytes : List UInt8) : String := String.ofList (utf8LossyChars .boundary bytes)

def utf8Bytes (s : String) : List UInt8 := s.toByteArray.data.toList

@[simp] theorem utf8Text?_utf8Bytes (s : String) : utf8Text? (utf8Bytes s) = .ok s := by
  have h : String.fromUTF8? s.toByteArray = some s := by
    simp [String.fromUTF8?, s.isValidUTF8, String.fromUTF8]
  simp [utf8Text?, utf8Bytes, h]

end TimeSeries.Text
