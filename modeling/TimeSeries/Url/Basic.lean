/-!
# Addresses

An address consists of a scheme, an authority with the host, a path, a query and a fragment. All
parts are kept in the encoded form in which they are written.
-/

namespace TimeSeries

/-- Where an address points to on the network. -/
structure Url.Authority where
  username : String := ""
  password : Option String := none
  host : String
  /-- The number behind the host, unless it is the usual one of the scheme. -/
  portNumber : Option Nat := none
deriving DecidableEq, Repr

/-- The path of an address. -/
inductive Url.Path where
  | plain (text : String)
  | segments (l : List String)
deriving DecidableEq, Repr

/-- An address. -/
structure Url where
  scheme : String
  authority : Option Url.Authority
  path : Url.Path
  query : Option String := none
  fragment : Option String := none
deriving DecidableEq, Repr

namespace Url

def Authority.text (a : Authority) : String :=
  let credentials :=
    a.username ++
      match a.password with
      | some p => ":" ++ p
      | none => ""
  (if credentials = "" then "" else credentials ++ "@") ++ a.host ++
    match a.portNumber with
    | some n => ":" ++ toString n
    | none => ""

def Path.text : Path → String
  | .plain s => s
  | .segments l => String.join (l.map fun s => "/" ++ s)

/-- What keeps a path that begins with an empty segment from being read as an authority. -/
def guard (u : Url) : String :=
  match u.authority, u.path with
  | none, .segments ("" :: _ :: _) => "/."
  | _, _ => ""

/-- A part behind a mark, if there is one. -/
def optionalPart (mark : String) : Option String → String
  | some s => mark ++ s
  | none => ""

def text (u : Url) : String :=
  u.scheme ++ ":" ++
    (match u.authority with
      | some a => "//" ++ a.text
      | none => "") ++
    u.guard ++ u.path.text ++ optionalPart "?" u.query ++ optionalPart "#" u.fragment

def withSegments (u : Url) (l : List String) : Url :=
  { u with
    path := match u.path with
      | .plain _ => .plain ("%2F" ++ String.intercalate "/" l)
      | .segments _ => .segments l }

/-- The address with more parameters in its query. -/
def addQuery (u : Url) (form : String) : Url :=
  { u with
    query := match u.query with
      | none => some form
      | some "" => some form
      | some q => some (q ++ "&" ++ form) }

def target (u : Url) : String := u.path.text ++ optionalPart "?" u.query

end Url

end TimeSeries
