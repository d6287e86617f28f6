import TimeSeries.Flux.Property

/-!
# Drafts of query text

A query is written piece by piece, and writing stops at the first fault. A draft is what stands
written then, together with the fault if there was one. Appending to a draft that has stopped does
nothing, so drafts under appending are a monoid.
-/

namespace TimeSeries.Flux

/-- Text written so far and the fault that stopped it. -/
structure Draft where
  text : String
  failure : Option Error
deriving DecidableEq, Repr

namespace Draft

def ofText (s : String) : Draft := ⟨s, none⟩

def stop (e : Error) : Draft := ⟨"", some e⟩

def append (a b : Draft) : Draft :=
  match a.failure with
  | some _ => a
  | none => ⟨a.text ++ b.text, b.failure⟩

instance : Append Draft := ⟨append⟩

/-- Drafts one behind the other with a text between them. -/
def joinWith (separator : String) : List Draft → Draft
  | [] => ofText ""
  | [d] => d
  | d :: more => d ++ (ofText separator ++ joinWith separator more)

/-- The finished text, or why there is none. -/
def result (d : Draft) : Except Error String :=
  match d.failure with
  | some e => .error e
  | none => .ok d.text

end Draft

end TimeSeries.Flux
