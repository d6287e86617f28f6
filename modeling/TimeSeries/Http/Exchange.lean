import TimeSeries.Text.Utf8

/-!
# Exchanges with a server

A request is sent and an answer comes back, or the connection is lost. A body may end before all of
it has come. A `Server` is a stand-in for the network: it gives fixed answers, one for each request,
and keeps the requests.
-/

namespace TimeSeries.Http

/-- A request. -/
structure Request where
  method : String
  target : String
  authorization : Option String
  /-- The header with the type of the body. -/
  contentType : Option String
  /-- The header with the wanted type, unless any is wanted. -/
  accept : Option String
  body : String
deriving DecidableEq, Repr

/-- What comes back. -/
inductive Answer where
  /-- The connection was lost, for the given reason. -/
  | lost (reason : String)
  /-- There is an answer with a status and a body, which may have broken off. -/
  | answer (status : Nat) (body : List UInt8) (broken : Bool)
deriving DecidableEq, Repr

def isSuccess (status : Nat) : Bool := decide (200 ≤ status) && decide (status < 300)

def isBodiless (status : Nat) : Bool := status == 204 || status == 304

def bodyFault : String := "error decoding response body"

/-- The body of an answer as text. Bytes that are no text are replaced. -/
def bodyText (body : List UInt8) (broken : Bool) : Except String String :=
  if broken then .error bodyFault else .ok (Text.utf8Lossy body)

/-- A server with fixed answers. When they are used up it answers without content. -/
structure Server where
  answers : List Answer
  /-- The requests that have come, from left to right. -/
  requests : List Request := []

namespace Server

def seen : Answer → Answer
  | .answer status body broken =>
    if isBodiless status then .answer status [] false else .answer status body broken
  | a => a

def exchange (s : Server) (r : Request) : Answer × Server :=
  match s.answers with
  | [] => (.answer 204 [] false, { s with requests := s.requests ++ [r] })
  | a :: more => (seen a, ⟨more, s.requests ++ [r]⟩)

/-- An exchange, if there is a request; otherwise nothing is sent. -/
def exchange? (s : Server) : Option Request → Answer × Server
  | some r => s.exchange r
  | none => (.lost "builder error", s)

end Server

end TimeSeries.Http
