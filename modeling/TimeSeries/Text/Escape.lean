/-!
# Backslash escapes

Two escapes of text are used on the wire. A *key* (measurement, tag key, tag value, field key)
gets a backslash before a space, a comma and an equals sign, and before nothing else: a backslash
of its own stays bare. A *quoted* text stands between double quotes, with a backslash before a
double quote and before a backslash. Both are the same operation `escape` with another set of
special characters.
-/

namespace TimeSeries.Text

/-- The characters of a text with a backslash before each special one. -/
def escapeChars (special : Char → Bool) (l : List Char) : List Char :=
  l.flatMap fun c => if special c then ['\\', c] else [c]

/-- A text with a backslash before each special character. -/
def escape (special : Char → Bool) (s : String) : String :=
  String.ofList (escapeChars special s.toList)

@[simp] theorem escapeChars_nil (special : Char → Bool) : escapeChars special [] = [] := rfl

theorem escapeChars_cons (special : Char → Bool) (c : Char) (l : List Char) :
    escapeChars special (c :: l) =
      (if special c then ['\\', c] else [c]) ++ escapeChars special l := rfl

@[simp] theorem toList_escape (special : Char → Bool) (s : String) :
    (escape special s).toList = escapeChars special s.toList := String.toList_ofList

/-- The separators of a line: they are escaped wherever they stand in a key. -/
def isKeySpecial (c : Char) : Bool := c == ' ' || c == ',' || c == '='

/-- The written form of a measurement, a tag key, a tag value or a field key. -/
def escapeKey (s : String) : String := escape isKeySpecial s

/-- What has to be escaped between double quotes. -/
def isQuoteSpecial (c : Char) : Bool := c == '"' || c == '\\'

def quote (s : String) : String := "\"" ++ escape isQuoteSpecial s ++ "\""

theorem toList_quote (s : String) :
    (quote s).toList = '"' :: (escapeChars isQuoteSpecial s.toList ++ ['"']) := by
  simp [quote]

end TimeSeries.Text
