import TimeSeries.Http.Status
import TimeSeries.Json.Decode
import TimeSeries.Text.Blank
import TimeSeries.Text.Lines
import TimeSeries.Text.Search

/-!
# What a server complains about

The body of an answer that tells of a fault is either JSON with a code and a message, or with an
error, or any other text. `complaint` is the one sentence that is made of it.

A complaint about a write may quote lines of the request that could not be read. `rejectedLines`
finds their places.
-/

namespace TimeSeries.Http

/-- What the JSON of a fault says. -/
structure FaultBody where
  code : Option String := none
  message : Option String := none
  /-- The message of servers that have no code. -/
  error : Option String := none
deriving DecidableEq, Repr

namespace FaultBody

def ofJson? (j : Json) : Option FaultBody := do
  let part := Json.member? (Json.optional? Json.text?) none
  match ← j.members? ["code", "message", "error"] with
  | [code, message, error] =>
    return { code := ← part code, message := ← part message, error := ← part error }
  | _ => none

/-- What a body says; nothing if it is not such JSON. -/
def read (body : String) : FaultBody :=
  match Json.read body with
  | some (j, true) => (ofJson? j).getD {}
  | _ => {}

end FaultBody

/-- What an answer with this status and this body complains about. -/
def complaint (status : Nat) (body : String) : String :=
  let b := FaultBody.read body
  let message := (b.message.or b.error).filter fun m => m != ""
  match b.code, message with
  | some code, some message => code ++ ": " ++ message
  | none, some message => message
  | _, none =>
    let text := Text.trim body
    if text = "" then (reasonPhrase? status).getD "unknown error" else text

/-- What stands in front of a quoted line. -/
def quoteStart : List Char := "unable to parse '".toList

def quoteEnd : List Char := "': ".toList

/-- The quoted lines of a complaint. A quote ends in front of the first mark of its end; without
such a mark it ends at the last apostrophe. -/
def quotedLines (message : List Char) : List (List Char) :=
  match h : Text.splitAt? quoteStart message with
  | none => []
  | some (_, rest) =>
    have : rest.length < message.length := Text.length_lt_of_splitAt? (by decide) h
    match h₂ : Text.splitAt? quoteEnd rest with
    | some (line, after) =>
      have : after.length < rest.length := Text.length_lt_of_splitAt? (by decide) h₂
      line :: quotedLines after
    | none =>
      match Text.splitLast? '\'' rest with
      | some (line, _) => [line]
      | none => []
termination_by message.length

/-- The places of the lines of a body that a complaint quotes, in increasing order. -/
def rejectedLines (message body : String) : List Nat :=
  let quoted := quotedLines message.toList
  (Text.lines body).zipIdx.filterMap fun l =>
    if quoted.contains l.1.toList then some l.2 else none

end TimeSeries.Http
