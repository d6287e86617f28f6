import TimeSeries.Json.Basic

/-!
# What a JSON value stands for

A value is decoded for a purpose: as a text, as an integer of a range, as one of several names, or
as a record with fixed keys. Decoding fails without a reason.
-/

namespace TimeSeries.Json

/-- The text of a string. Surrogates have to come in pairs. -/
def pieceText : List Piece → Option (List Char)
  | [] => some []
  | .char c :: rest => (pieceText rest).map (c :: ·)
  | .unit n :: rest =>
    if n < 0xD800 ∨ 0xDFFF < n then (pieceText rest).map (Char.ofNat n :: ·)
    else if 0xDBFF < n then none
    else
      match rest with
      | .unit m :: rest =>
        if 0xDC00 ≤ m ∧ m ≤ 0xDFFF then
          (pieceText rest).map (Char.ofNat ((n - 0xD800) * 0x400 + (m - 0xDC00) + 0x10000) :: ·)
        else none
      | _ => none

/-- The text of a value that is a string. -/
def text? : Json → Option String
  | .string s => (pieceText s).map String.ofList
  | _ => none

/-- The integer of a value that is one, at least `low` and less than `high`. -/
def integer? (low high : Int) : Json → Option Int
  | .number (some n) => if low ≤ n ∧ n < high then some n else none
  | _ => none

/-- The natural number of a value that is one and less than `bound`. -/
def nat? (bound : Nat) (j : Json) : Option Nat := (j.integer? 0 bound).map Int.toNat

def optional? {α : Type} (read : Json → Option α) : Json → Option (Option α)
  | .null => some none
  | j => (read j).map some

/-- One of several names. It is a string or the only key of an object whose member is `null`. -/
def choice? {α : Type} (ofName : String → Option α) : Json → Option α
  | .object [(key, .null)] => (Json.string key).text?.bind ofName
  | j => j.text?.bind ofName

def valuesOf (name : String) (members : List (String × Json)) : List Json :=
  (members.filter fun m => m.1 = name).map Prod.snd

/-- The members of a record that has fixed keys. It is an object, in which no known key occurs twice
and other keys count for nothing, or an array of the values in the order of the keys, which may stop
early. -/
def members? (names : List String) : Json → Option (List (Option Json))
  | .array l =>
    if names.length < l.length then none
    else some (names.zipIdx.map fun n => l[n.2]?)
  | .object l =>
    match l.mapM fun m => (Json.string m.1).text?.map fun key => (key, m.2) with
    | none => none
    | some members =>
      names.mapM fun name =>
        match valuesOf name members with
        | [] => some none
        | [v] => some (some v)
        | _ => none
  | _ => none

def member? {α : Type} (read : Json → Option α) (default : α) : Option Json → Option α
  | none => some default
  | some j => read j

end TimeSeries.Json
