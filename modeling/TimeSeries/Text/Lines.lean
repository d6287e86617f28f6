import TimeSeries.Text.Split

/-!
# Lines of a text

`lines` cuts a text after every line feed. The line feed is not part of a line, and neither is a
single carriage return in front of it. What follows the last line feed is a line of its own unless
it is empty, so a text that ends with a line feed has no empty last line.
-/

namespace TimeSeries.Text

/-- A line without the carriage return that stood in front of its line feed. -/
def dropReturn (l : List Char) : List Char :=
  if l.getLast? = some '\r' then l.dropLast else l

/-- The lines among the pieces between line feeds: every piece but the last was ended by one. -/
def linesOfPieces : List (List Char) → List (List Char)
  | [] => []
  | [last] => if last.isEmpty then [] else [last]
  | piece :: more => dropReturn piece :: linesOfPieces more

def lines (s : String) : List String :=
  (linesOfPieces (splitAll (· == '\n') s.toList)).map String.ofList

def hasLineFeed (s : String) : Bool := s.toList.contains '\n'

end TimeSeries.Text
