import TimeSeries.Write.Session

/-!
# Delivery of events

A pipeline does not wait for its listeners. It puts events on a channel, and a task of its own takes
them from there, one after the other, and tells each one to the listeners that are registered by
then. A writer is a pipeline with this channel. Closing it ends the pipeline first and then shuts
the channel, and returns when everything on the channel is delivered.
-/

namespace TimeSeries

/-- A listener, with the events that it was told, the first one first. -/
structure Listener where
  /-- The kind of events that it is told, if it is not told all of them. -/
  kind : Option EventKind
  told : List WriteEvent := []
deriving DecidableEq

namespace Listener

def wants (l : Listener) (e : WriteEvent) : Bool := l.kind.all fun k => k = e.detail.kind

/-- The listener behind an event, which it may not be told. -/
def hear (l : Listener) (e : WriteEvent) : Listener :=
  if l.wants e then { l with told := l.told ++ [e] } else l

end Listener

/-- The way of events to listeners. -/
structure Channel where
  /-- The listeners in the order in which they were registered. -/
  listeners : List Listener := []
  /-- The events that are not delivered yet, the oldest one first. -/
  waiting : List WriteEvent := []
  isOpen : Bool := true
deriving DecidableEq

namespace Channel

def listen (c : Channel) (kind : Option EventKind) : Channel :=
  { c with listeners := c.listeners ++ [{ kind := kind }] }

/-- More events. A channel that is shut drops them. -/
def emit (c : Channel) (events : List WriteEvent) : Channel :=
  if c.isOpen then { c with waiting := c.waiting ++ events } else c

/-- The oldest event that waits is delivered, if there is one. -/
def dispatch (c : Channel) : Option Channel :=
  match c.waiting with
  | [] => none
  | e :: more => some { c with listeners := c.listeners.map (·.hear e), waiting := more }

def shut (c : Channel) : Channel := { c with isOpen := false }

end Channel

/-- How far the call that closes a writer has come. -/
inductive Closing where
  | idle
  /-- It waits for the task of the pipeline. -/
  | joining
  /-- The pipeline is closed. -/
  | joined
  /-- It waits for the events that are left. -/
  | delivering
  | returned
deriving DecidableEq, Repr

/-- A pipeline and the channel of its events. -/
structure Writer where
  pipeline : Pipeline
  channel : Channel
  closing : Closing
deriving DecidableEq

/-- What can happen to a writer. -/
inductive Move where
  /-- Something happens to the pipeline, other than that closing ends. -/
  | act (a : Action)
  | listen (kind : Option EventKind)
  | dispatch
  | close
  /-- Closing goes on, as the task of the pipeline has ended. -/
  | join
  | shut
  /-- Closing returns. -/
  | finish

namespace Writer

def start (options : WriteOptions) (policy : BatchOptions) : Writer :=
  ⟨Pipeline.start options policy, {}, .idle⟩

/-- Something happens to the pipeline, and its events go on the channel. -/
def act (w : Writer) (a : Action) (closing : Closing) : Option Writer :=
  (w.pipeline.step a).map fun r => ⟨r.1, w.channel.emit (Effect.events r.2), closing⟩

def step (w : Writer) : Move → Option Writer
  | .act .finishClose => none
  | .act a => w.act a w.closing
  | .listen kind => some { w with channel := w.channel.listen kind }
  | .dispatch => w.channel.dispatch.map fun c => { w with channel := c }
  | .close => if w.closing = .idle then w.act .beginClose .joining else none
  | .join => if w.closing = .joining then w.act .finishClose .joined else none
  | .shut =>
    if w.closing = .joined then some { w with channel := w.channel.shut, closing := .delivering }
    else none
  | .finish =>
    if w.closing = .delivering ∧ w.channel.waiting = [] then some { w with closing := .returned }
    else none

end Writer

end TimeSeries
