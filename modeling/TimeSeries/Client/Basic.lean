import TimeSeries.Error
import TimeSeries.Http.Exchange
import TimeSeries.Text.Visible
import TimeSeries.Url.Parse

/-!
# Clients

A client knows the address of a server, an organisation for queries and the credentials. It turns
writes and queries into requests for the two endpoints of the server. The path of the base address
gives way to that of the endpoint, and its query stays.
-/

namespace TimeSeries

/-- A client of a server. -/
structure Client where
  base : Url
  org : String
  token : String
  /-- A name and a password for writes. -/
  credentials : Option (String × String) := none
deriving DecidableEq, Repr

namespace Client

def new (url org token : String) : Except ConfigError Client :=
  match Url.parse url with
  | .ok base => .ok { base := base, org := org, token := token }
  | .error fault => .error (.invalidUrl url fault.message)

/-- A client in one line, without its secrets. -/
def summary (c : Client) : String :=
  "Client \x7b url: " ++ Text.visible c.base.text ++ ", org: " ++ Text.visible c.org ++ ", .. \x7d"

def isHeaderChar (c : Char) : Bool :=
  c == '\t' || (decide (0x20 ≤ c.toNat) && decide (c.toNat ≠ 0x7F))

/-- The white space around the value of a header is no part of it. -/
def headerValue (s : String) : String :=
  String.ofList (Text.trimEnds (fun c => c == ' ' || c == '\t') s.toList)

/-- The header with the token, if there is a token. A token that cannot stand in a header is a
fault. -/
def authorization (c : Client) : Option (Option String) :=
  if c.token = "" then some none
  else if c.token.toList.all isHeaderChar then some (some (headerValue ("Token " ++ c.token)))
  else none

/-- A request for an endpoint, unless its headers cannot be written. -/
def request (c : Client) (segments : List String) (params : List (String × String))
    (contentType : String) (accept : Option String) (body : String) : Option Http.Request :=
  c.authorization.map fun authorization =>
    { method := "POST"
      target := ((c.base.withSegments segments).addQuery (Url.formOf params)).target
      authorization := authorization
      contentType := some contentType
      accept := accept
      body := body }

end Client

end TimeSeries
