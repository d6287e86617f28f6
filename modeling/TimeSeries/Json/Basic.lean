import TimeSeries.Json.Token

/-!
# JSON values

A JSON text is read into a tree. `read` reads the value at the front of a text and says whether
nothing but white space follows it.
-/

namespace TimeSeries

/-- A JSON value. -/
inductive Json where
  | null
  | bool (b : Bool)
  /-- A number, with its value if it is an integer written as such. -/
  | number (n : Option Int)
  | string (s : List Json.Piece)
  | array (l : List Json)
  /-- An object with its members in the order in which they are written. -/
  | object (l : List (List Json.Piece × Json))

namespace Json

mutual

/-- The value at the front of some tokens and the tokens behind it. Every use of fuel in an array or
object goes with a token, so twice the number of tokens is enough. -/
def readValue : Nat → List Token → Option (Json × List Token)
  | 0, _ => none
  | fuel + 1, tokens =>
    match tokens with
    | .null :: rest => some (.null, rest)
    | .bool b :: rest => some (.bool b, rest)
    | .number n :: rest => some (.number n, rest)
    | .string s :: rest => some (.string s, rest)
    | .openArray :: .closeArray :: rest => some (.array [], rest)
    | .openArray :: rest => (readItems fuel rest).map fun r => (.array r.1, r.2)
    | .openObject :: .closeObject :: rest => some (.object [], rest)
    | .openObject :: rest => (readMembers fuel rest).map fun r => (.object r.1, r.2)
    | _ => none

/-- The items up to the end of an array. -/
def readItems : Nat → List Token → Option (List Json × List Token)
  | 0, _ => none
  | fuel + 1, tokens =>
    match readValue fuel tokens with
    | some (v, .comma :: rest) => (readItems fuel rest).map fun r => (v :: r.1, r.2)
    | some (v, .closeArray :: rest) => some ([v], rest)
    | _ => none

/-- The members up to the end of an object. -/
def readMembers : Nat → List Token → Option (List (List Piece × Json) × List Token)
  | 0, _ => none
  | fuel + 1, tokens =>
    match tokens with
    | .string key :: .colon :: rest =>
      match readValue fuel rest with
      | some (v, .comma :: rest) => (readMembers fuel rest).map fun r => ((key, v) :: r.1, r.2)
      | some (v, .closeObject :: rest) => some ([(key, v)], rest)
      | _ => none
    | _ => none

end

/-- The value at the front of a text, and whether the text ends behind it. -/
def read (s : String) : Option (Json × Bool) :=
  let t := tokens s
  (readValue (2 * t.tokens.length + 2) t.tokens).map fun r => (r.1, r.2.isEmpty && t.complete)

end Json

end TimeSeries
