import TimeSeries.KeyMap
import TimeSeries.Value.Text

/-!
# Literals

A literal is a value, a list of values or a record of named values. Elements and entries that are
`null` are left out, and a literal with nothing left has no text.
-/

namespace TimeSeries.Flux

/-- What a property or a parameter can be fixed to. -/
inductive Literal where
  | value (v : Value)
  | list (l : List Value)
  | record (r : KeyMap Value)
deriving DecidableEq

namespace Literal

def strings (l : List String) : Literal := .list (l.map Value.string)

/-- Written parts with commas between them in brackets, or nothing when there are none. -/
def bracketed (left right : String) : List String → Option String
  | [] => none
  | parts => some (left ++ ", ".intercalate parts ++ right)

/-- An entry of a record with a value. -/
def entryText? (e : String × Value) : Option String :=
  e.2.literal?.map fun t => Text.quote e.1 ++ ": " ++ t

def text? : Literal → Option String
  | .value v => v.literal?
  | .list l => bracketed "[" "]" (l.filterMap Value.literal?)
  | .record r => bracketed "\x7b" "\x7d" (r.toList.filterMap entryText?)

end Literal

end TimeSeries.Flux
