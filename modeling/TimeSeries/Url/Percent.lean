import TimeSeries.Text.Hex
import TimeSeries.Text.Utf8

/-!
# Percent-encoding

A character that must not stand in a part of an address is written as the bytes of its UTF-8 form,
each as a percent sign with two hexadecimal digits. Characters outside ASCII are always written so.
For ASCII characters it depends on the part, and the sets below say which ones are written so.

Form encoding is the variant for the parameters of a query: a space is a plus sign.
-/

namespace TimeSeries.Url

def isControl (c : Char) : Bool := decide (c.toNat < 0x20) || decide (c.toNat = 0x7F)

def fragmentSet (c : Char) : Bool := isControl c || [' ', '"', '<', '>', '\x60'].contains c

def pathSet (c : Char) : Bool := fragmentSet c || ['#', '?', '\x7b', '\x7d'].contains c

/-- What is encoded in a name or a password. -/
def userinfoSet (c : Char) : Bool :=
  pathSet c || ['/', ':', ';', '=', '@', '[', '\\', ']', '^', '|'].contains c

def querySet (c : Char) : Bool := isControl c || [' ', '"', '#', '<', '>'].contains c

/-- What is encoded in a query of the schemes with fixed rules. -/
def specialQuerySet (c : Char) : Bool := querySet c || c == '\''

def percentByte (b : UInt8) : List Char :=
  ['%', Text.capitalHexDigit (b.toNat / 16), Text.capitalHexDigit (b.toNat % 16)]

/-- The bytes of a character, each behind a percent sign. -/
def percentChar (c : Char) : List Char :=
  (Text.utf8Bytes (String.singleton c)).flatMap percentByte

/-- A text with the characters of a set and all that are not ASCII encoded. -/
def percentEncode (set : Char → Bool) (l : List Char) : List Char :=
  l.flatMap fun c => if set c || decide (0x80 ≤ c.toNat) then percentChar c else [c]

/-- The bytes of a text, encoded ones decoded. A percent sign without two digits stands for
itself. -/
def percentDecode : List Char → List UInt8
  | [] => []
  | '%' :: a :: b :: rest =>
    match Text.hexValue? a, Text.hexValue? b with
    | some m, some n => UInt8.ofNat (m * 16 + n) :: percentDecode rest
    | _, _ => 0x25 :: percentDecode (a :: b :: rest)
  | c :: rest => Text.utf8Bytes (String.singleton c) ++ percentDecode rest

/-- The character stands for itself in a form. -/
def isFormPlain (c : Char) : Bool :=
  (decide ('a' ≤ c) && decide (c ≤ 'z')) || (decide ('A' ≤ c) && decide (c ≤ 'Z')) ||
    (decide ('0' ≤ c) && decide (c ≤ '9')) || ['*', '-', '.', '_'].contains c

def formEncode (s : String) : List Char :=
  s.toList.flatMap fun c =>
    if c = ' ' then ['+'] else if isFormPlain c then [c] else percentChar c

/-- The parameters of a query as a form. -/
def formOf (params : List (String × String)) : String :=
  String.intercalate "&" (params.map fun p =>
    String.ofList (formEncode p.1 ++ '=' :: formEncode p.2))

end TimeSeries.Url
