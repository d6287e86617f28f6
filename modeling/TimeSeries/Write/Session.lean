import TimeSeries.Write.Pipeline.Step

/-!
# Sessions

A session runs a pipeline under a clock that only commands move and against a network that is a
function with a state. Behind every command the task goes on until it has to wait for something
that only a command can bring, so what a session does is determined by its commands.

The network can be held back: every reply then needs a permit.
-/

namespace TimeSeries

/-- The replies of a network to requests, one after the other. -/
abbrev Network (σ : Type) := σ → WriteRequest → Reply × σ

/-- The network that gives these replies and then stores everything. -/
def Network.listed : Network (List Reply)
  | [], _ => (.outcome .success, [])
  | r :: more, _ => (r, more)

/-- A pipeline with its surroundings. -/
structure Session (σ : Type) where
  pipeline : Pipeline
  network : σ
  /-- The number of replies that may arrive, if that is limited. -/
  permits : Option Nat := none
  /-- A caller waits for the pipeline to be closed. -/
  closing : Bool := false

/-- What is done to a session. -/
inductive Command where
  /-- These are handed in, one right behind the other. -/
  | submit (l : List Submission)
  /-- These points are handed in up to the first that is refused. -/
  | submitAll (l : List Point)
  | advance (millis : Nat)
  | release (permits : Nat)
  /-- Closing begins and nothing holds the network back any more. -/
  | close
  | beginClose
  | drop
  | look

/-- What came of a command. -/
structure Report where
  /-- For each submission, why it was refused if it was. -/
  refusals : List (Option Error)
  effects : List Effect

namespace Session

variable {σ : Type}

def act (s : Session σ) (a : Action) : Option (Session σ × List Effect) :=
  (s.pipeline.step a).map fun r => ({ s with pipeline := r.1 }, r.2)

/-- What happens next without a command, if anything does. -/
def next? (network : Network σ) (s : Session σ) : Option (Session σ × List Effect) :=
  match s.pipeline.stage with
  | .sending batch _ =>
    if s.permits = some 0 then none
    else
      let lines := batch.map fun r => r.item.line
      let r := network s.network (WriteRequest.ofLines s.pipeline.options lines)
      { s with network := r.2, permits := s.permits.map (· - 1) }.act (.reply r.1)
  | .waiting _ => (s.act .wakeUp).or (s.act .expire)
  | .done | .dead => if s.closing then { s with closing := false }.act .finishClose else none
  | _ => s.act (.work 0)

/-- What happens in at most so many steps without a command. -/
def settleIn (network : Network σ) : Nat → Session σ → Session σ × List Effect
  | 0, s => (s, [])
  | n + 1, s =>
    match s.next? network with
    | none => (s, [])
    | some (s, effects) =>
      let r := settleIn network n s
      (r.1, effects ++ r.2)

/-- What happens until a command is needed. At most six steps take a batch from the queue, which
then is shorter, and the rest is the way from one wait to the next or to the end. -/
def settle (network : Network σ) (s : Session σ) : Session σ × List Effect :=
  settleIn network (8 * (s.pipeline.queued + 4)) s

def submit (s : Session σ) : List Submission → Session σ × Report
  | [] => (s, ⟨[], []⟩)
  | x :: more =>
    match s.pipeline.submit x with
    | .error e =>
      let r := s.submit more
      (r.1, ⟨some e :: r.2.refusals, r.2.effects⟩)
    | .ok (p, effects) =>
      let r := { s with pipeline := p }.submit more
      (r.1, ⟨none :: r.2.refusals, effects ++ r.2.effects⟩)

def perform (s : Session σ) (c : Command) : Session σ × Report :=
  let quiet (r : Option (Session σ × List Effect)) : Session σ × Report :=
    match r with
    | some (s, effects) => (s, ⟨[], effects⟩)
    | none => (s, ⟨[], []⟩)
  match c with
  | .submit l => s.submit l
  | .submitAll l =>
    let r := s.pipeline.submitAll l
    ({ s with pipeline := r.1.1 }, ⟨[r.2], r.1.2⟩)
  | .advance millis => quiet (s.act (.elapse millis))
  | .release permits => quiet (some ({ s with permits := s.permits.map (· + permits) }, []))
  | .close => quiet ({ s with permits := none, closing := true }.act .beginClose)
  | .beginClose => quiet ({ s with closing := true }.act .beginClose)
  | .drop => quiet (s.act .beginClose)
  | .look => quiet none

/-- A command and everything that follows from it. -/
def run (network : Network σ) (s : Session σ) (c : Command) : Session σ × Report :=
  let r := s.perform c
  let t := r.1.settle network
  (t.1, ⟨r.2.refusals, r.2.effects ++ t.2⟩)

end Session

def Effect.requests (l : List Effect) : List (List Pending) :=
  l.filterMap fun
    | .request batch => some batch
    | _ => none

def Effect.events (l : List Effect) : List WriteEvent :=
  l.filterMap fun
    | .event e => some e
    | _ => none

end TimeSeries
