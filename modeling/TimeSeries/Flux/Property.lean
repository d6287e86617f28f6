import TimeSeries.Flux.Duration
import TimeSeries.Flux.Literal

/-!
# Properties and parameters

A property of an operator is given by a literal, by a duration, by an expression that is written as
it stands, or by the name of a parameter. Parameters are bound to literals when the query is
written, so the only thing that can go wrong is a name that is not bound.
-/

namespace TimeSeries.Flux

/-- Why a query cannot be written. -/
inductive Error where
  /-- A parameter of this name is used but not bound. -/
  | unboundParameter (name : String)
deriving DecidableEq, Repr

def Error.message : Error → String
  | .unboundParameter name => "Unbound query parameter: " ++ name

abbrev Parameters := KeyMap Literal

/-- Where the value of a property comes from. -/
inductive Property where
  | literal (l : Literal)
  | parameter (name : String)
  | duration (d : Duration)
  | expression (raw : String)
deriving DecidableEq

namespace Property

/-- The text of a property, or nothing when it is to be left out. -/
def text? (params : Parameters) : Property → Except Error (Option String)
  | .literal l => .ok l.text?
  | .parameter name =>
    match params.get? name with
    | some l => .ok l.text?
    | none => .error (.unboundParameter name)
  | .duration d => .ok (some d.text)
  | .expression raw => .ok (if raw = "" then none else some raw)

end Property

end TimeSeries.Flux
