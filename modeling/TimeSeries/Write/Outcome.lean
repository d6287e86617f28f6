/-!
# Outcomes of write requests

An outcome is the verdict on a request as a whole. A verdict may name single lines of the request by
their place from zero.
-/

namespace TimeSeries

/-- What became of a request. -/
inductive Outcome where
  | success
  /-- The lines at these places were rejected, for the given reason. -/
  | rejected (places : List Nat) (reason : String)
  /-- Nothing was stored. There is no status when no answer arrived. -/
  | failure (status : Option Nat) (message : String)
deriving DecidableEq, Repr

namespace Outcome

/-- A failure with this status may go away by itself: there was no answer, the server asked for
patience, or it was at fault. -/
def statusRetryable : Option Nat → Bool
  | none => true
  | some status => status == 429 || decide (500 ≤ status)

/-- The request, or a part of it, is worth another attempt. -/
def retryable : Outcome → Bool
  | .success => false
  | .rejected _ _ => true
  | .failure status _ => statusRetryable status

end Outcome

/-- The elements at the named places, counted from `i`, and all others, both in order. -/
def splitPlaces {α : Type} (places : List Nat) : (i : Nat) → List α → List α × List α
  | _, [] => ([], [])
  | i, a :: l =>
    let r := splitPlaces places (i + 1) l
    if places.contains i then (a :: r.1, r.2) else (r.1, a :: r.2)

end TimeSeries
