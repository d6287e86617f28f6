import TimeSeries.Client.Basic
import TimeSeries.Http.Complaint
import TimeSeries.Write.Session

/-!
# Writing through a client

A batch is one request for the endpoint `write`. The answer is made into an outcome: a status of
success stores everything, a complaint about a partial write that quotes lines of the batch rejects
these lines, and any other status is a failure. Without an answer there is a failure without a
status.
-/

namespace TimeSeries.Client

open Http

def writeRequest (c : Client) (r : WriteRequest) : Option Request :=
  let policy := match r.retentionPolicy with
    | some name => [("rp", name)]
    | none => []
  let credentials := match c.credentials with
    | some (name, password) => [("u", name), ("p", password)]
    | none => []
  c.request ["write"]
    ([("db", r.database), ("precision", r.precision.queryParameter),
      ("consistency", r.consistency.name)] ++ policy ++ credentials)
    "text/plain; charset=utf-8" none r.body

/-- What an answer with a status that does not tell of success means for a body of lines. -/
def verdict (status : Nat) (text body : String) : Outcome :=
  let message := complaint status text
  let rejected :=
    if status = 400 ∧ Text.contains "partial write" message then rejectedLines message body else []
  if rejected = [] then .failure (some status) message else .rejected rejected message

/-- What an answer means for a body of lines. -/
def outcome (body : String) : Answer → Except Error Outcome
  | .lost reason => .ok (.failure none reason)
  | .answer status text broken =>
    if isSuccess status then .ok .success
    else
      match bodyText text broken with
      | .ok text => .ok (verdict status text body)
      | .error fault => .error (.http fault)

def write (c : Client) (s : Server) (r : WriteRequest) : Except Error Outcome × Server :=
  let (answer, s) := s.exchange? (c.writeRequest r)
  (outcome r.body answer, s)

/-- Points are sent in one request. Without points there is no request. -/
def writePoints (c : Client) (s : Server) (o : WriteOptions) (points : List Point) :
    Except Error Unit × Server :=
  match points.mapM fun p => p.line o.precision with
  | .error e => (.error (.point e), s)
  | .ok [] => (.ok (), s)
  | .ok lines =>
    let (result, s) := c.write s (WriteRequest.ofLines o lines)
    let result := match result with
      | .error e => .error e
      | .ok .success => .ok ()
      | .ok (.rejected places reason) => .error (.partialWrite places.length reason)
      | .ok (.failure status message) => .error (.transport status message)
    (result, s)

/-- The client as the network of a pipeline. -/
def network (c : Client) : Network Server := fun s r =>
  let (result, s) := c.write s r
  match result with
  | .ok o => (.outcome o, s)
  | .error e => (.fault e, s)

/-- A pipeline takes some records, one right behind the other, and is closed. -/
def writeAll (c : Client) (s : Server) (o : WriteOptions) (policy : BatchOptions)
    (records : List String) : Report × Server :=
  let session : Session Server := { pipeline := Pipeline.start o policy, network := s }
  let (session, submitted) := session.submit (records.map .record)
  let (session, closed) := session.run c.network .close
  (⟨submitted.refusals, submitted.effects ++ closed.effects⟩, session.network)

end TimeSeries.Client
