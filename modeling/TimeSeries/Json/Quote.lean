import TimeSeries.Text.Hex

/-!
# Writing JSON strings

A text is written between double quotes. The quote, the backslash and the control characters are
escaped, and all other characters stand for themselves.
-/

namespace TimeSeries.Json

/-- The escape of a character in a string, where it needs one. -/
def escapeChar (c : Char) : List Char :=
  match c with
  | '"' => ['\\', '"']
  | '\\' => ['\\', '\\']
  | '\x08' => ['\\', 'b']
  | '\x0c' => ['\\', 'f']
  | '\n' => ['\\', 'n']
  | '\r' => ['\\', 'r']
  | '\t' => ['\\', 't']
  | c =>
    if c.toNat < 0x20 then
      ['\\', 'u', '0', '0'] ++ Text.hexByte (UInt8.ofNat c.toNat)
    else [c]

def quote (s : String) : String := "\"" ++ String.ofList (s.toList.flatMap escapeChar) ++ "\""

end TimeSeries.Json
