import TimeSeries.Text.Hex
import TimeSeries.Text.Split

/-!
# Numeric addresses

A host whose last part is a number is an address of version 4. It has up to four parts, the last of
which fills all bytes that are left, and every part may be decimal, octal behind `0` or hexadecimal
behind `0x`. An address of version 6 stands in brackets as eight groups of hexadecimal digits, where
a double colon stands for groups of zeros and the last two groups may be an address of version 4
in its plain form.
-/

namespace TimeSeries.Url

/-- The value of digits of a base, if all are digits. -/
def digitsValue? (base : Nat) (l : List Char) : Option Nat :=
  l.foldlM (fun n c =>
    match Text.hexValue? c with
    | some d => if d < base then some (n * base + d) else none
    | none => none) 0

/-- The value of a part of an address of version 4. -/
def partValue? (l : List Char) : Option Nat :=
  match l with
  | [] => none
  | '0' :: 'x' :: rest => digitsValue? 16 rest
  | '0' :: 'X' :: rest => digitsValue? 16 rest
  | '0' :: c :: rest => digitsValue? 8 (c :: rest)
  | l => digitsValue? 10 l

/-- The parts of a host, without the empty one behind a final dot. -/
def hostParts (l : List Char) : List (List Char) :=
  let parts := Text.splitAll (· == '.') l
  if 1 < parts.length ∧ parts.getLast? = some [] then parts.dropLast else parts

/-- The host has to be an address of version 4: its last part is a number. -/
def endsInNumber (l : List Char) : Bool :=
  match (hostParts l).getLast? with
  | some [] => false
  | some part => (digitsValue? 10 part).isSome || (partValue? part).isSome
  | none => false

/-- The four bytes of an address of version 4. -/
def readIpv4 (l : List Char) : Option (List Nat) := do
  let values ← (hostParts l).mapM partValue?
  if 4 < values.length then none
  else
    let last ← values.getLast?
    let front := values.dropLast
    if front.any (255 < ·) ∨ Nat.pow 256 (4 - front.length) ≤ last then none
    else
      let tail := (List.range (4 - front.length)).map fun i =>
        last / Nat.pow 256 (3 - front.length - i) % 256
      some (front ++ tail)

def ipv4Text (bytes : List Nat) : String := String.intercalate "." (bytes.map toString)

/-- The value of one to three decimal digits below 256 without a leading zero. -/
def plainByte? (l : List Char) : Option Nat :=
  match l with
  | [] => none
  | '0' :: _ :: _ => none
  | l => (digitsValue? 10 l).bind fun n => if n < 256 then some n else none

/-- The two groups of an address of version 4 in its plain form. -/
def plainIpv4Groups? (l : List Char) : Option (List Nat) := do
  match ← (Text.splitAll (· == '.') l).mapM plainByte? with
  | [a, b, c, d] => some [a * 256 + b, c * 256 + d]
  | _ => none

/-- The value of one to four hexadecimal digits. -/
def group? (l : List Char) : Option Nat :=
  if l.isEmpty ∨ 4 < l.length then none else digitsValue? 16 l

/-- The groups of pieces that stood between colons; the last piece may be a plain address of version
4. -/
def groups? : List (List Char) → Option (List Nat)
  | [] => some []
  | [last] =>
    if last.contains '.' then plainIpv4Groups? last else (group? last).map fun g => [g]
  | piece :: more => do
    let g ← group? piece
    return g :: (← groups? more)

/-- The text in front of the first double colon and the text behind it. -/
def splitDoubleColon : List Char → Option (List Char × List Char)
  | ':' :: ':' :: rest => some ([], rest)
  | c :: rest => (splitDoubleColon rest).map fun r => (c :: r.1, r.2)
  | [] => none

/-- The groups of a text without a double colon. -/
def groupsOf? (l : List Char) : Option (List Nat) :=
  if l.isEmpty then some [] else groups? (Text.splitAll (· == ':') l)

/-- The eight groups of an address of version 6. In front of a double colon there is no address of
version 4. -/
def readIpv6 (l : List Char) : Option (List Nat) :=
  match splitDoubleColon l with
  | none => (groupsOf? l).bind fun g => if g.length = 8 then some g else none
  | some (front, back) =>
    if front.contains '.' then none
    else
      match groupsOf? front, groupsOf? back with
      | some f, some b =>
        if f.length + b.length < 8 then
          some (f ++ List.replicate (8 - f.length - b.length) 0 ++ b)
        else none
      | _, _ => none

def zeroRun (l : List Nat) : Nat := (l.takeWhile (· == 0)).length

/-- The place and length of the first of the longest runs of zeros. -/
def longestZeroRun (l : List Nat) : Nat × Nat :=
  (List.range l.length).foldl
    (fun best i =>
      let n := zeroRun (l.drop i)
      if best.2 < n then (i, n) else best) (0, 0)

def groupsText (l : List Nat) : String :=
  String.intercalate ":" (l.map fun g => String.ofList (Nat.toDigits 16 g))

/-- An address of version 6 in brackets. The longest run of at least two groups of zeros is a double
colon. -/
def ipv6Text (groups : List Nat) : String :=
  let run := longestZeroRun groups
  let text :=
    if run.2 < 2 then groupsText groups
    else groupsText (groups.take run.1) ++ "::" ++ groupsText (groups.drop (run.1 + run.2))
  "[" ++ text ++ "]"

end TimeSeries.Url
