import TimeSeries.Number.Integer
import TimeSeries.Text.Blank
import TimeSeries.Url.Address
import TimeSeries.Url.Basic
import TimeSeries.Url.Domain
import TimeSeries.Url.Percent

/-!
# Reading addresses

An address is read as browsers read it. Some schemes have fixed rules: they always have a host, a
backslash counts as a slash, and hosts are domains or numeric addresses. The host of any other
scheme is a text, and without two slashes there is no host at all.

Segments of a path that are a dot or two dots are resolved while they are read. In a path of files
the letter of a drive stays at the front.
-/

namespace TimeSeries.Url

/-- Why a text is no address. -/
inductive Fault where
  | emptyHost
  | domain
  /-- What stands behind the colon of a host is no number below 65536. -/
  | portNumber
  /-- The host ends in a number and is no address of version 4. -/
  | ipv4
  /-- The host begins with a bracket and is no address of version 6. -/
  | ipv6
  /-- The host holds a character that a host must not hold. -/
  | hostCharacter
  | relative
deriving DecidableEq, Repr

def Fault.message : Fault → String
  | .emptyHost => "empty host"
  | .domain => "invalid international domain name"
  | .portNumber => "invalid port number"
  | .ipv4 => "invalid IPv4 address"
  | .ipv6 => "invalid IPv6 address"
  | .hostCharacter => "invalid domain character"
  | .relative => "relative URL without a base"

/-- The usual number behind the host of a scheme with fixed rules. -/
def usualPort? : String → Option Nat
  | "http" => some 80
  | "ws" => some 80
  | "https" => some 443
  | "wss" => some 443
  | "ftp" => some 21
  | _ => none

/-- The rules for an address. -/
inductive Rules where
  /-- The fixed rules of schemes of the network. -/
  | web
  | file
  | other
deriving DecidableEq, Repr

def Rules.ofScheme (scheme : String) : Rules :=
  if scheme = "file" then .file
  else if (usualPort? scheme).isSome then .web else .other

def Rules.isSlash (r : Rules) (c : Char) : Bool := c == '/' || (c == '\\' && decide (r ≠ .other))

def isLetter (c : Char) : Bool :=
  (decide ('a' ≤ c) && decide (c ≤ 'z')) || (decide ('A' ≤ c) && decide (c ≤ 'Z'))

/-- The scheme at the front and what follows its colon. -/
def splitScheme : List Char → Option (List Char × List Char)
  | [] => none
  | c :: rest =>
    if c = ':' then some ([], rest)
    else if isLetter c || Number.isDigit c || ['+', '-', '.'].contains c then
      (splitScheme rest).map fun r => (c.toLower :: r.1, r.2)
    else none

/-- The part in front of the first mark, and the part behind it if there is one. -/
def splitMark (mark : Char) (l : List Char) : List Char × Option (List Char) :=
  match l.dropWhile (· != mark) with
  | [] => (l, none)
  | _ :: rest => (l.takeWhile (· != mark), some rest)

/-- The characters from which a name and a password are read, and the characters behind the `@`. -/
def splitUserinfo (r : Rules) (l : List Char) : Option (List Char × List Char) :=
  let front := l.takeWhile fun c => !r.isSlash c
  if front.contains '@' then
    let after := (front.reverse.takeWhile (· != '@')).length
    some (front.take (front.length - after - 1), l.drop (front.length - after))
  else none

def readUserinfo (l : List Char) : String × Option String :=
  let part (l : List Char) : String := String.ofList (percentEncode userinfoSet l)
  match splitMark ':' l with
  | (name, none) => (part name, none)
  | (name, some []) => (part name, none)
  | (name, some password) => (part name, some (part password))

/-- The characters of the host; brackets protect colons. -/
def takeHost (r : Rules) : (inBrackets : Bool) → List Char → List Char × List Char
  | _, [] => ([], [])
  | inBrackets, c :: rest =>
    if r.isSlash c || (c == ':' && !inBrackets) then ([], c :: rest)
    else
      let t := takeHost r (if c = '[' then true else if c = ']' then false else inBrackets) rest
      (c :: t.1, t.2)

def readBracketed (l : List Char) : Except Fault String :=
  if l.getLast? = some ']' then
    match readIpv6 (l.drop 1).dropLast with
    | some groups => .ok (ipv6Text groups)
    | none => .error .ipv6
  else .error .ipv6

def readHost (l : List Char) : Except Fault String :=
  if l.head? = some '[' then readBracketed l
  else
    match Domain.ofBytes? (percentDecode l) with
    | none => .error .domain
    | some [] => .error .emptyHost
    | some domain =>
      if endsInNumber domain then
        match readIpv4 domain with
        | some bytes => .ok (ipv4Text bytes)
        | none => .error .ipv4
      else .ok (String.ofList domain)

/-- The character must not stand in a host that is a text. -/
def isHostForbidden (c : Char) : Bool :=
  ['\x00', '\t', '\n', '\r', ' ', '#', '/', ':', '<', '>', '?', '@', '[', '\\', ']', '^',
    '|'].contains c

def readPlainHost (l : List Char) : Except Fault String :=
  if l.head? = some '[' then readBracketed l
  else if l.any isHostForbidden then .error .hostCharacter
  else .ok (String.ofList (percentEncode isControl l))

/-- The number behind the colon of a host, unless it is the usual one, and the path behind it. -/
def readPort (usual : Option Nat) (l : List Char) : Except Fault (Option Nat × List Char) :=
  let digits := l.takeWhile Number.isDigit
  let rest := l.dropWhile Number.isDigit
  let n := Number.valueOfDigits digits
  if 65535 < n ∨ (rest.head?.map fun c => c != '/' && c != '\\').getD false then .error .portNumber
  else .ok (if digits = [] ∨ usual = some n then none else some n, rest)

/-- The authority behind two slashes and the path behind it. `followed` says that a query or a
fragment comes behind the path. -/
def readAuthority (scheme : String) (r : Rules) (followed : Bool) (l : List Char) :
    Except Fault (Authority × List Char) := do
  let (username, password, l) ←
    match splitUserinfo r l with
    | none => .ok ("", none, l)
    | some ([], l) =>
      let ends := match l with
        | [] => followed
        | c :: _ => r.isSlash c
      if ends then .error Fault.emptyHost else .ok ("", none, l)
    | some (info, l) =>
      let (username, password) := readUserinfo info
      .ok (username, password, l)
  let (hostChars, l) := takeHost r false l
  if hostChars = [] ∧ (r ≠ .other ∨ l.head? = some ':') then .error Fault.emptyHost
  let host ← if r = .other then readPlainHost hostChars else readHost hostChars
  let (portNumber, l) ←
    match l with
    | ':' :: l => readPort (usualPort? scheme) l
    | l => .ok (none, l)
  if host = "" ∧ (username ≠ "" ∨ password.isSome) then .error Fault.emptyHost
  .ok (⟨username, password, host, portNumber⟩, l)

def dots : List Char → List Char
  | '%' :: '2' :: 'e' :: rest => '.' :: dots rest
  | '%' :: '2' :: 'E' :: rest => '.' :: dots rest
  | c :: rest => c :: dots rest
  | [] => []

def isDrive (l : List Char) : Bool :=
  match l with
  | [c, m] => isLetter c && (m == ':' || m == '|')
  | _ => false

/-- Segments without the last one, which stays if it is the letter of a drive. -/
def dropSegment (r : Rules) (done : List (List Char)) : List (List Char) :=
  match done with
  | [] => []
  | [drive] => if r = .file ∧ isDrive drive then [drive] else []
  | _ :: more => more

/-- The segments behind those that are done, which stand from right to left. -/
def resolve (r : Rules) : (done : List (List Char)) → List (List Char) → List (List Char)
  | done, [] => done.reverse
  | done, piece :: more =>
    let d := dots piece
    if d = ['.', '.'] then
      let done := dropSegment r done
      resolve r (if more = [] then [] :: done else done) more
    else if d = ['.'] then resolve r (if more = [] then [] :: done else done) more
    else if r = .file ∧ done = [] ∧ isDrive piece then
      resolve r [piece.take 1 ++ [':']] more
    else resolve r (percentEncode pathSet piece :: done) more

/-- The segments of a path without the slash at its front. -/
def readSegments (r : Rules) (l : List Char) : List String :=
  let segments := resolve r [] (Text.splitAll r.isSlash l)
  let segments :=
    if r = .file then
      match segments.dropWhile List.isEmpty with
      | [] => [[]]
      | l => l
    else segments
  segments.map String.ofList

/-- A path without the slash at its front, if there is one. -/
def dropSlash (r : Rules) (l : List Char) : List Char :=
  match l with
  | c :: rest => if r.isSlash c then rest else l
  | [] => []

/-- The authority and the path of a file. -/
def readFile (l : List Char) : Except Fault (Authority × Path) := do
  match l with
  | a :: b :: rest =>
    if Rules.file.isSlash a ∧ Rules.file.isSlash b then
      let hostChars := rest.takeWhile fun c => !Rules.file.isSlash c
      if isDrive hostChars then return (⟨"", none, "", none⟩, .segments (readSegments .file rest))
      let path := rest.dropWhile fun c => !Rules.file.isSlash c
      let host ← if hostChars = [] then .ok "" else readHost hostChars
      let segments := readSegments .file (dropSlash .file path)
      let host :=
        if host = "localhost" ∨ (segments.head?.map fun s => isDrive s.toList).getD false then ""
        else host
      return (⟨"", none, host, none⟩, .segments segments)
    else return (⟨"", none, "", none⟩, .segments (readSegments .file (dropSlash .file l)))
  | l => return (⟨"", none, "", none⟩, .segments (readSegments .file (dropSlash .file l)))

/-- What stands behind the scheme, up to the query. -/
def readBody (scheme : String) (followed : Bool) (l : List Char) :
    Except Fault (Option Authority × Path) := do
  match Rules.ofScheme scheme with
  | .file =>
    let (a, path) ← readFile l
    return (some a, path)
  | .web =>
    let (a, l) ← readAuthority scheme .web followed (l.dropWhile Rules.web.isSlash)
    return (some a, .segments (readSegments .web (dropSlash .web l)))
  | .other =>
    match l with
    | '/' :: '/' :: l =>
      let (a, l) ← readAuthority scheme .other followed l
      if l = [] then return (some a, .segments [])
      return (some a, .segments (readSegments .other (dropSlash .other l)))
    | '/' :: l => return (none, .segments (readSegments .other l))
    | l => return (none, .plain (String.ofList (percentEncode isControl l)))

/-- The character counts for nothing at the ends of an address. -/
def isEdge (c : Char) : Bool := decide (c.toNat ≤ 0x20)

/-- The character counts for nothing inside an address. -/
def isLayout (c : Char) : Bool := c == '\t' || c == '\n' || c == '\r'

def parse (s : String) : Except Fault Url := do
  let l := (Text.trimEnds isEdge s.toList).filter fun c => !isLayout c
  match if (l.head?.map isLetter).getD false then splitScheme l else none with
  | none => .error .relative
  | some (scheme, l) =>
    let scheme := String.ofList scheme
    let (l, fragment) := splitMark '#' l
    let (l, query) := splitMark '?' l
    let (authority, path) ← readBody scheme (query.isSome || fragment.isSome) l
    let set := if Rules.ofScheme scheme = .other then querySet else specialQuerySet
    return {
      scheme := scheme
      authority := authority
      path := path
      query := query.map fun q => String.ofList (percentEncode set q)
      fragment := fragment.map fun f => String.ofList (percentEncode fragmentSet f) }

end TimeSeries.Url
