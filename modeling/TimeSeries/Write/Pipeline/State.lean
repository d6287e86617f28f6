import TimeSeries.Error
import TimeSeries.Write.Event
import TimeSeries.Write.RetryBuffer

/-!
# The state of a write pipeline

A pipeline accepts records without waiting for the network. Accepted records wait in a queue of
bounded length. One task takes batches from the queue, puts the records that wait for another
attempt in front of them, sends one request at a time and looks at the reply.

Records are numbered in the order in which they are accepted. The stages of the task are the places
where something else can happen in between. What can be seen from outside, and what happens to each
record, are `Effect`s.
-/

namespace TimeSeries

/-- An accepted record that is not yet done with. -/
structure Pending where
  /-- The number of the record in the order of acceptance. -/
  serial : Nat
  item : Item
  attempts : UInt32 := 0
deriving DecidableEq

/-- What becomes of a record in the end. -/
inductive Fate where
  | stored
  /-- It was dropped from a full queue. -/
  | dropped
  | refused
  | expired
  /-- It was driven out of the retry buffer. -/
  | evicted
  /-- It was still waiting for another attempt when the pipeline finished. -/
  | abandoned
  /-- The task broke down while it was on its way. -/
  | lost
deriving DecidableEq, Repr

/-- What a step brings about. -/
inductive Effect where
  /-- A request with these records is sent. -/
  | request (batch : List Pending)
  /-- An event is told to the listeners. -/
  | event (e : WriteEvent)
  | left (fate : Fate) (records : List Pending)
deriving DecidableEq

/-- Whether a pipeline takes records. -/
inductive Lifecycle where
  | accepting
  /-- Records are taken, and all that wait are sent. -/
  | draining
  | closed
deriving DecidableEq, Repr

/-- What a request in flight belongs to. -/
inductive Phase where
  | batching
  /-- The batches that empty the queue at the end. -/
  | draining
  | final
deriving DecidableEq, Repr

/-- What the task does next. -/
inductive Stage where
  /-- It sets the time of the next batch. -/
  | scheduling
  /-- It looks whether the pipeline is being closed. -/
  | looking (deadline : Nat)
  /-- It looks whether the queue holds a batch. -/
  | counting (deadline : Nat)
  /-- It waits to be woken or for the time of the next batch. -/
  | waiting (deadline : Nat)
  /-- It takes a batch and sends it. -/
  | collecting
  /-- It waits for the reply to a request. -/
  | sending (batch : List Pending) (phase : Phase)
  /-- It takes a batch and sends it, while the pipeline is being closed. -/
  | draining
  /-- It closes the pipeline if the queue is still empty. -/
  | settling
  /-- It makes the last attempt for the records that failed. -/
  | finishing
  /-- It gives up the records that still wait. -/
  | discarding
  | done
  | dead
deriving DecidableEq

/-- What the task does next when a request of a phase is settled. -/
def Phase.next : Phase → Stage
  | .batching => .scheduling
  | .draining => .draining
  | .final => .discarding

/-- What comes back for a request. -/
inductive Reply where
  | outcome (o : Outcome)
  /-- There is none, for the given reason. -/
  | fault (e : Error)
  | breakdown

/-- The state of a pipeline. -/
structure Pipeline where
  options : WriteOptions
  policy : BatchOptions
  /-- The records that wait for their first attempt, the oldest one first. -/
  queue : List Pending
  /-- The number of records in the queue, as it was set last. Callers and the task read it without
  looking at the queue. -/
  queued : Nat
  /-- The records that wait for another attempt. -/
  retries : RetryBuffer Pending
  lifecycle : Lifecycle
  /-- The task was woken and has not noticed yet. -/
  woken : Bool
  /-- The time in milliseconds. -/
  clock : Nat
  stage : Stage
  /-- The number of records accepted so far. -/
  accepted : Nat
deriving DecidableEq

namespace Pipeline

/-- A pipeline in which nothing has happened yet. -/
def start (options : WriteOptions) (policy : BatchOptions) : Pipeline :=
  { options := options
    policy := policy
    queue := []
    queued := 0
    retries := RetryBuffer.empty policy.retryLimit
    lifecycle := .accepting
    woken := false
    clock := 0
    stage := .scheduling
    accepted := 0 }

/-- The number of records that wait for another attempt, as callers read it. -/
def retrying (p : Pipeline) : Nat := p.retries.size

end Pipeline

def Lifecycle.name : Lifecycle → String
  | .accepting => "Open"
  | .draining => "Draining"
  | .closed => "Closed"

def Pipeline.summary (p : Pipeline) : String :=
  "WriteApi \x7b state: " ++ p.lifecycle.name ++ ", queued: " ++ toString p.queued ++
    ", retrying: " ++ toString p.retrying ++ " \x7d"

end TimeSeries
