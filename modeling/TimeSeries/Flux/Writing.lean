import TimeSeries.Flux.Operator
import TimeSeries.Point.LineBuffer

/-!
# Queries written onto a text

A call is written piece by piece behind what was written before. Whether a property has a text shows
only after its name has been written, so the text is then cut back to where the property began. The
separator in front of a property depends on how many were written, not on how many there were.

A literal tells whether it has written anything, and so does a property, unless it refers to a
parameter that is not bound.
-/

namespace TimeSeries

def Value.write (b : LineBuffer) (v : Value) : LineBuffer × Bool :=
  match v.literal? with
  | some t => (b.append t, true)
  | none => (b, false)

namespace Flux

namespace Literal

/-- Parts behind what was written, of which `written` stand there already, with a comma in front of
each but the first. -/
def writeParts {α : Type} (write : LineBuffer → α → LineBuffer) :
    (written : Nat) → LineBuffer → List α → LineBuffer
  | _, b, [] => b
  | written, b, a :: rest =>
    writeParts write (written + 1) (write (if 0 < written then b.append ", " else b) a) rest

/-- Parts in brackets, or nothing when there are none. -/
def writeBracketed {α : Type} (left right : String) (write : LineBuffer → α → LineBuffer)
    (b : LineBuffer) (parts : List α) : LineBuffer × Bool :=
  if parts.isEmpty then (b, false)
  else ((writeParts write 0 (b.append left) parts).append right, true)

def write (b : LineBuffer) : Literal → LineBuffer × Bool
  | .value v => v.write b
  | .list l =>
    writeBracketed "[" "]" (fun b v => (v.write b).1) b (l.filter fun v => !v.isNull)
  | .record r =>
    writeBracketed "\x7b" "\x7d"
      (fun b e => (e.2.write ((b.append (Text.quote e.1)).append ": ")).1) b
      (r.toList.filter fun e => !e.2.isNull)

end Literal

/-- A property behind what was written, and whether it had a text. -/
def Property.write (params : Parameters) (b : LineBuffer) :
    Property → LineBuffer × Except Error Bool
  | .literal l => ((l.write b).1, .ok (l.write b).2)
  | .parameter name =>
    match params.get? name with
    | some l => ((l.write b).1, .ok (l.write b).2)
    | none => (b, .error (.unboundParameter name))
  | .duration d => ((b.append (toString d.writtenAmount)).append d.unit.suffix, .ok true)
  | .expression raw => if raw = "" then (b, .ok false) else (b.append raw, .ok true)

namespace Operator

/-- Properties behind what was written, of which `written` stand there already, up to the closing
parenthesis. On a fault the properties in front of it and the name of the faulty one have been
written. -/
def writeArguments (params : Parameters) :
    (written : Nat) → LineBuffer → List (String × Property) → LineBuffer × Except Error Unit
  | _, b, [] => (b.append ")", .ok ())
  | written, b, (name, value) :: rest =>
    let labelled := ((if 0 < written then b.append ", " else b).append name).append ": "
    match value.write params labelled with
    | (more, .error e) => (more, .error e)
    | (more, .ok true) => writeArguments params (written + 1) more rest
    | (more, .ok false) => writeArguments params written (more.truncate b.length) rest

def write (params : Parameters) (b : LineBuffer) (o : Operator) : LineBuffer × Except Error Unit :=
  writeArguments params 0 ((b.append o.name).append "(") o.properties

end Operator

end Flux

end TimeSeries
