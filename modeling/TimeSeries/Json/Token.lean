import TimeSeries.Number.Integer
import TimeSeries.Text.Hex

/-!
# Tokens of JSON

A text is cut into tokens by a machine that looks at one character at a time. It stops at the first
character that cannot go on a token, and what it found until then stays valid: a reader may be
content with the tokens in front of that place.

Strings keep `\u` escapes as 16-bit units, because only a reader that wants text has to care whether
surrogates come in pairs.
-/

namespace TimeSeries.Json

/-- A piece of a string. -/
inductive Piece where
  /-- A character, written as it is or by a short escape. -/
  | char (c : Char)
  /-- A 16-bit unit, written by its four hexadecimal digits. -/
  | unit (n : Nat)
deriving DecidableEq, Repr

/-- A token. -/
inductive Token where
  | openArray
  | closeArray
  | openObject
  | closeObject
  | comma
  | colon
  | null
  | bool (b : Bool)
  /-- A number, with its value if it is an integer written without fraction and exponent. A negative
  zero is no integer. -/
  | number (n : Option Int)
  | string (s : List Piece)
deriving DecidableEq, Repr

/-- Where in a number the machine stands. -/
inductive NumberPlace where
  | sign
  | zero
  /-- In the integer part, which has a value. -/
  | integer (value : Nat)
  | point
  | fraction
  | mark
  | markSign
  | exponent
deriving DecidableEq, Repr

namespace NumberPlace

def isMark (c : Char) : Bool := c == 'e' || c == 'E'

/-- The place behind one more character of the number. -/
def next? : NumberPlace → Char → Option NumberPlace
  | .sign, c =>
    if c = '0' then some .zero
    else if Number.isDigit c then some (.integer (c.toNat - 48)) else none
  | .zero, c =>
    if c = '.' then some .point else if isMark c then some .mark else none
  | .integer value, c =>
    if Number.isDigit c then some (.integer (value * 10 + (c.toNat - 48)))
    else if c = '.' then some .point else if isMark c then some .mark else none
  | .point, c => if Number.isDigit c then some .fraction else none
  | .fraction, c =>
    if Number.isDigit c then some .fraction else if isMark c then some .mark else none
  | .mark, c =>
    if Number.isDigit c then some .exponent else if c = '+' ∨ c = '-' then some .markSign else none
  | .markSign, c => if Number.isDigit c then some .exponent else none
  | .exponent, c => if Number.isDigit c then some .exponent else none

/-- The token of a number that ends here, if it can. -/
def token? (negative : Bool) : NumberPlace → Option Token
  | .zero => some (.number (if negative then none else some 0))
  | .integer value => some (.number (some (if negative then -(value : Int) else value)))
  | .fraction => some (.number none)
  | .exponent => some (.number none)
  | _ => none

end NumberPlace

/-- Where in a text the machine stands. -/
inductive Place where
  | between
  /-- In a word, of which these characters are missing. -/
  | word (t : Token) (missing : List Char)
  | number (negative : Bool) (p : NumberPlace)
  /-- In a string, with its pieces from right to left. -/
  | string (s : List Piece)
  | escape (s : List Piece)
  /-- In a 16-bit unit, of which so many digits are missing. -/
  | unit (s : List Piece) (value missing : Nat)
deriving DecidableEq, Repr

def isSpace (c : Char) : Bool := c == ' ' || c == '\n' || c == '\t' || c == '\r'

/-- What a character between two tokens begins: a token that is complete, if there is one, and the
place behind the character. -/
def begin? (c : Char) : Option (Option Token × Place) :=
  if isSpace c then some (none, .between)
  else
    match c with
    | '[' => some (some .openArray, .between)
    | ']' => some (some .closeArray, .between)
    | '\x7b' => some (some .openObject, .between)
    | '\x7d' => some (some .closeObject, .between)
    | ',' => some (some .comma, .between)
    | ':' => some (some .colon, .between)
    | 'n' => some (none, .word .null ['u', 'l', 'l'])
    | 't' => some (none, .word (.bool true) ['r', 'u', 'e'])
    | 'f' => some (none, .word (.bool false) ['a', 'l', 's', 'e'])
    | '-' => some (none, .number true .sign)
    | '"' => some (none, .string [])
    | c => (NumberPlace.sign.next? c).map fun p => (none, .number false p)

/-- The character that a short escape stands for. -/
def shortEscape? : Char → Option Char
  | '"' => some '"'
  | '\\' => some '\\'
  | '/' => some '/'
  | 'b' => some '\x08'
  | 'f' => some '\x0c'
  | 'n' => some '\n'
  | 'r' => some '\r'
  | 't' => some '\t'
  | _ => none

/-- The tokens that a character completes and the place behind it, if a token can go on with it. -/
def Place.next? : Place → Char → Option (List Token × Place)
  | .between, c => (begin? c).map fun r => (r.1.toList, r.2)
  | .word t missing, c =>
    match missing with
    | [] => none
    | [a] => if c = a then some ([t], .between) else none
    | a :: more => if c = a then some ([], .word t more) else none
  | .number negative p, c =>
    match p.next? c with
    | some p => some ([], .number negative p)
    | none =>
      match p.token? negative, begin? c with
      | some t, some r => some (t :: r.1.toList, r.2)
      | _, _ => none
  | .string s, c =>
    if c = '"' then some ([.string s.reverse], .between)
    else if c = '\\' then some ([], .escape s)
    else if c.toNat < 0x20 then none
    else some ([], .string (.char c :: s))
  | .escape s, c =>
    if c = 'u' then some ([], .unit s 0 4)
    else (shortEscape? c).map fun d => ([], .string (.char d :: s))
  | .unit s value missing, c =>
    (Text.hexValue? c).map fun d =>
      let value := value * 16 + d
      if missing = 1 then ([], .string (.unit value :: s)) else ([], .unit s value (missing - 1))

/-- The tokens of a text. -/
structure Tokens where
  /-- The tokens up to the first character that cannot go on. -/
  tokens : List Token
  complete : Bool
deriving DecidableEq, Repr

/-- The tokens of a text whose first character stands at a place. A number that cannot go on with a
character which begins no token is complete all the same. -/
def tokensFrom : Place → List Char → Tokens
  | .between, [] => ⟨[], true⟩
  | .number negative p, [] =>
    match p.token? negative with
    | some t => ⟨[t], true⟩
    | none => ⟨[], false⟩
  | _, [] => ⟨[], false⟩
  | place, c :: rest =>
    match place.next? c with
    | some r =>
      let more := tokensFrom r.2 rest
      ⟨r.1 ++ more.tokens, more.complete⟩
    | none =>
      match place with
      | .number negative p =>
        match p.next? c with
        | some _ => ⟨[], false⟩
        | none => ⟨(p.token? negative).toList, false⟩
      | _ => ⟨[], false⟩

def tokens (s : String) : Tokens := tokensFrom .between s.toList

end TimeSeries.Json
