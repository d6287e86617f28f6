import TimeSeries.Flux.Draft
import TimeSeries.Flux.Restriction

/-!
# Operators

An operator is a call with named properties. A property that is set again keeps its place and takes
the new value. Properties without text are left out together with their names and commas.
-/

namespace TimeSeries.Flux

/-- A call in a query. -/
structure Operator where
  name : String
  /-- The properties in the order in which they were first set. -/
  properties : List (String × Property) := []
deriving DecidableEq

namespace Operator

/-- A value for a name, in the place of the value it had or else at the end. -/
def setProperty (name : String) (value : Property) :
    List (String × Property) → List (String × Property)
  | [] => [(name, value)]
  | e :: rest =>
    if e.1 = name then (name, value) :: rest else e :: setProperty name value rest

def property (o : Operator) (name : String) (value : Property) : Operator :=
  { o with properties := setProperty name value o.properties }

/-- The operator of a name with properties set from left to right. -/
def ofProperties (name : String) (l : List (String × Property)) : Operator :=
  l.foldl (fun o e => o.property e.1 e.2) { name := name }

/-- The properties of a call behind the first `written` ones, up to the closing parenthesis. -/
def arguments (params : Parameters) : (written : Nat) → List (String × Property) → Draft
  | _, [] => Draft.ofText ")"
  | written, (name, value) :: rest =>
    let label := (if 0 < written then ", " else "") ++ name ++ ": "
    match value.text? params with
    | .error e => Draft.ofText label ++ Draft.stop e
    | .ok none => arguments params written rest
    | .ok (some t) => Draft.ofText (label ++ t) ++ arguments params (written + 1) rest

def draft (params : Parameters) (o : Operator) : Draft :=
  Draft.ofText (o.name ++ "(") ++ arguments params 0 o.properties

end Operator

end TimeSeries.Flux
