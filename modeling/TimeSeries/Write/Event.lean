import TimeSeries.Write.Outcome
import TimeSeries.Write.Request

/-!
# Events of a pipeline

A pipeline tells its listeners what happens to records. Every event names the records it is about
and the options they were written with.
-/

namespace TimeSeries

/-- What happened. -/
inductive EventDetail where
  | stored
  /-- The records were rejected, for the given reason. -/
  | rejected (reason : String)
  | failed (status : Option Nat) (message : String) (retryable : Bool)
  /-- The records were dropped from a full queue, which now holds `queued`. -/
  | dropped (queued : Nat)
  /-- There is a verdict on the batch. -/
  | answered (outcome : Outcome)
  /-- The batch could not be sent, or there is no verdict on it. -/
  | unhandled (message : String)
deriving DecidableEq, Repr

/-- The kind of an event, by which listeners are registered. -/
inductive EventKind where
  | stored
  /-- A part of a batch was rejected. -/
  | rejected
  | failed
  | dropped
  | answered
  | unhandled
deriving DecidableEq, Repr

def EventDetail.kind : EventDetail → EventKind
  | .stored => .stored
  | .rejected _ => .rejected
  | .failed .. => .failed
  | .dropped _ => .dropped
  | .answered _ => .answered
  | .unhandled _ => .unhandled

/-- An event. -/
structure WriteEvent where
  /-- The records that the event is about. -/
  items : List Item
  options : WriteOptions
  detail : EventDetail
deriving DecidableEq

def EventKind.all : List EventKind :=
  [.stored, .rejected, .failed, .dropped, .answered, .unhandled]

end TimeSeries
