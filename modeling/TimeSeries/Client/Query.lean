import TimeSeries.Client.Basic
import TimeSeries.Flux.Query
import TimeSeries.Http.Complaint
import TimeSeries.Json.Quote
import TimeSeries.Table.Decode

/-!
# Queries through a client

A query is one request for the endpoint `api/v2/query`, whose body is JSON. The body of an answer
that tells of success is an annotated response. It is read as records, one by one or all at once, or
as tables.
-/

namespace TimeSeries.Client

open Http

/-- The body of the request for a query. -/
def queryBody (query : String) : String :=
  "\x7b\"query\":" ++ Json.quote query ++ ",\"type\":\"flux\",\"dialect\":\x7b" ++
    "\"annotations\":[\"datatype\",\"group\",\"default\"],\"commentPrefix\":\"#\"," ++
    "\"dateTimeFormat\":\"RFC3339\",\"delimiter\":\",\",\"header\":true\x7d\x7d"

def queryRequest (c : Client) (query : String) : Option Request :=
  c.request ["api", "v2", "query"] [("org", c.org)] "application/json" (some "application/csv")
    (queryBody query)

def response : Answer → Except Error Csv.Input
  | .lost reason => .error (.http reason)
  | .answer status body broken =>
    if isSuccess status then
      .ok { bytes := body, ending := if broken then .broken bodyFault else .complete }
    else
      match bodyText body broken with
      | .ok text => .error (.transport (some status) (complaint status text))
      | .error fault => .error (.http fault)

def send (c : Client) (s : Server) (query : String) : Except Error Csv.Input × Server :=
  let (answer, s) := s.exchange? (c.queryRequest query)
  (response answer, s)

/-- The records in front of the first fault, and that fault. -/
def recordsOf (input : Csv.Input) : List Record × Option TableError :=
  let scan := Scan.ofInput {} input
  let (events, fault) := Scan.untilFault scan.ending scan.results
  (events.filterMap fun
    | .record r => some r
    | .table _ => none, fault)

/-- The records of a query, one by one, with the fault that ends them if there is one. -/
def stream (c : Client) (s : Server) (query : String) :
    Except Error (List Record × Option TableError) × Server :=
  let (r, s) := c.send s query
  (r.map recordsOf, s)

def query (c : Client) (s : Server) (query : String) : Except Error (List Record) × Server :=
  let (r, s) := c.stream s query
  (r.bind fun
    | (records, none) => .ok records
    | (_, some e) => .error (.table e), s)

def queryTables (c : Client) (s : Server) (query : String) : Except Error (List Table) × Server :=
  let (r, s) := c.send s query
  (r.bind fun input =>
    match decodeTables [] input with
    | ⟨tables, none⟩ => .ok tables
    | ⟨_, some e⟩ => .error (.table e), s)

/-- The tables of a query that is printed with parameters. -/
def queryFlux (c : Client) (s : Server) (q : Flux.Query) (params : Flux.Parameters) :
    Except Error (List Table) × Server :=
  match q.printWith params with
  | .error e => (.error (.flux e), s)
  | .ok text => c.queryTables s text

end TimeSeries.Client
