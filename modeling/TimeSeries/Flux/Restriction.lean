import TimeSeries.Flux.Property

/-!
# Restrictions

A restriction is a condition on a row: comparisons of columns with values and checks that a column
exists, joined by `not`, `and` and `or`. A group of two or more stands in parentheses, a group of
one is written as its element, and an empty group as the truth value that it has.

`not` is written without parentheses of its own, since it binds less tightly than a comparison and
more tightly than `and` and `or`.
-/

namespace TimeSeries.Flux

/-- A comparison of two values. -/
inductive Comparison where
  | equal
  | notEqual
  /-- Below. -/
  | less
  /-- Below or equal. -/
  | lessOrEqual
  | greater
  | greaterOrEqual
deriving DecidableEq, Repr

def Comparison.sign : Comparison → String
  | .equal => "=="
  | .notEqual => "!="
  | .less => "<"
  | .lessOrEqual => "<="
  | .greater => ">"
  | .greaterOrEqual => ">="

/-- A condition on a row. -/
inductive Restriction where
  | compare (column : String) (op : Comparison) (value : Value)
  | present (column : String)
  | not (r : Restriction)
  | and (l : List Restriction)
  | or (l : List Restriction)

namespace Restriction

/-- A column of the row that a condition is about. -/
def columnText (column : String) : String := "r[" ++ Text.quote column ++ "]"

def group (joiner identity : String) : List String → String
  | [] => identity
  | [only] => only
  | parts => "(" ++ joiner.intercalate parts ++ ")"

mutual

def text : Restriction → String
  | .compare column op value =>
    columnText column ++ " " ++ op.sign ++ " " ++ value.literal?.getD "null"
  | .present column => "exists " ++ columnText column
  | .not r => "not " ++ r.text
  | .and l => group " and " "true" (texts l)
  | .or l => group " or " "false" (texts l)

/-- The conditions of a group in the query language. -/
def texts : List Restriction → List String
  | [] => []
  | r :: l => r.text :: texts l

end

/-- The condition as a function of a row. -/
def function (r : Restriction) : String := "(r) => " ++ r.text

end Restriction

/-- A restriction as the value of a property. -/
def Property.restriction (r : Restriction) : Property := .expression r.function

end TimeSeries.Flux
