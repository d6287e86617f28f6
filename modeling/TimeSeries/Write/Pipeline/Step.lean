import TimeSeries.Write.Pipeline.State

/-!
# Steps of a write pipeline

The pipeline is a transition system. What callers, the clock, the task and the network do to it are
`Action`s, and `Pipeline.step` says which of them are possible and what they bring about. Actions
interleave freely.
-/

namespace TimeSeries

/-- What can happen to a pipeline. -/
inductive Action where
  | submit (s : Submission)
  | beginClose
  /-- Closing ends, when the task has ended. -/
  | finishClose
  | elapse (millis : Nat)
  /-- The task goes on, with a random addition to the next interval if it sets one. -/
  | work (jitter : Nat)
  /-- The waiting task notices that it was woken. -/
  | wakeUp
  /-- The waiting task notices that its time has come. -/
  | expire
  | reply (r : Reply)

namespace Pipeline

def tell (p : Pipeline) (records : List Pending) (detail : EventDetail) : Effect :=
  .event ⟨records.map Pending.item, p.options, detail⟩

def encode (p : Pipeline) : Submission → Except PointError Item
  | .point x => Item.ofPoint p.options.precision x
  | .measurement x => x.bind (Item.ofPoint p.options.precision)
  | .record text => Item.ofRecord text

/-- One more record in the queue. A full queue drops its oldest record first. The task is woken when
there is a batch. -/
def enqueue (p : Pipeline) (item : Item) : Pipeline × List Effect :=
  let excess := if p.policy.queueCapacity ≤ p.queue.length then 1 else 0
  let dropped := p.queue.take excess
  let queue := p.queue.drop excess ++ [⟨p.accepted, item, 0⟩]
  let p' :=
    { p with
      queue := queue
      queued := queue.length
      accepted := p.accepted + 1
      woken := p.woken || decide (p.policy.batchSize ≤ queue.length) }
  (p',
    if dropped = [] then []
    else [p.tell dropped (.dropped queue.length), .left .dropped dropped])

/-- What a caller hands in is encoded at once and waits in the queue. A value of the caller turns
into its point before the pipeline is looked at. -/
def submit (p : Pipeline) (s : Submission) : Except Error (Pipeline × List Effect) :=
  match s with
  | .measurement (.error e) => .error (.point e)
  | s =>
    if p.lifecycle = .closed then .error .closed
    else
      match p.encode s with
      | .error e => .error (.point e)
      | .ok item => .ok (p.enqueue item)

/-- Several points, one after the other, up to the first that is refused. -/
def submitAll (p : Pipeline) : List Point → (Pipeline × List Effect) × Option Error
  | [] => ((p, []), none)
  | x :: more =>
    match p.submit (.point x) with
    | .error e => ((p, []), some e)
    | .ok (p, effects) =>
      let r := p.submitAll more
      ((r.1.1, effects ++ r.1.2), r.2)

/-- A pipeline at a later stage of its task. -/
def inStage (p : Pipeline) (stage : Stage) : Pipeline := { p with stage := stage }

/-- A request is sent with everything that waits for another attempt and with these records. -/
def send (p : Pipeline) (batch : List Pending) (phase : Phase) : Pipeline × List Effect :=
  let r := p.retries.drain
  let all := r.2 ++ batch
  ({ p with retries := r.1, stage := .sending all phase }, [.request all])

/-- A batch from the front of the queue. -/
def batch (p : Pipeline) : List Pending := p.queue.take p.policy.batchSize

def withoutBatch (p : Pipeline) : Pipeline :=
  let queue := p.queue.drop p.policy.batchSize
  { p with queue := queue, queued := queue.length }

/-- A pipeline of which everything that waits for another attempt was taken. -/
def withoutRetries (p : Pipeline) : Pipeline := { p with retries := p.retries.drain.1 }

/-- The records that failed once more: those that may not be tried again expire, and the others wait
in the retry buffer, where they can drive out older ones. -/
def retryLater (p : Pipeline) (records : List Pending) : Pipeline × List Effect :=
  let failed := records.map fun r => { r with attempts := r.attempts + 1 }
  let kept := failed.filter fun r => decide (r.attempts ≤ p.policy.maxRetries)
  let expired := failed.filter fun r => decide (¬r.attempts ≤ p.policy.maxRetries)
  let r := p.retries.offer kept
  ({ p with retries := r.1 }, [.left .expired expired, .left .evicted r.2])

/-- What an outcome means for the records of a batch. -/
def settle (p : Pipeline) (batch : List Pending) : Outcome → Pipeline × List Effect
  | .success => (p, [p.tell batch .stored, .left .stored batch])
  | .rejected places reason =>
    let (rejected, stored) := splitPlaces places 0 batch
    if rejected = [] then (p, [p.tell batch .stored, .left .stored batch])
    else
      let r := p.retryLater rejected
      (r.1, [p.tell rejected (.rejected reason), .left .stored stored] ++ r.2)
  | .failure status message =>
    let retryable := Outcome.statusRetryable status
    let told := p.tell batch (.failed status message retryable)
    if retryable then
      let r := p.retryLater batch
      (r.1, told :: r.2)
    else (p, [told, .left .refused batch])

def receive (p : Pipeline) (batch : List Pending) (phase : Phase) : Reply → Pipeline × List Effect
  | .outcome o =>
    let r := (p.inStage phase.next).settle batch o
    (r.1, p.tell batch (.answered o) :: r.2)
  | .fault e =>
    let r := (p.inStage phase.next).retryLater batch
    (r.1, p.tell batch (.unhandled e.message) :: r.2)
  | .breakdown => (p.inStage .dead, [.left .lost batch])

/-- The task goes on by itself, unless it has to wait or has ended. -/
def work (p : Pipeline) (jitter : Nat) : Option (Pipeline × List Effect) :=
  match p.stage with
  | .scheduling =>
    let delay := p.policy.flushInterval + min jitter p.policy.jitter
    some (p.inStage (.looking (p.clock + delay)), [])
  | .looking deadline =>
    some (p.inStage (if p.lifecycle = .accepting then .counting deadline else .draining), [])
  | .counting deadline =>
    let ready := p.policy.batchSize ≤ p.queued
    some (p.inStage (if ready then .collecting else .waiting deadline), [])
  | .collecting =>
    if p.retries.items = [] ∧ p.batch = [] then
      some (p.withoutRetries.withoutBatch.inStage .scheduling, [])
    else some (p.withoutBatch.send p.batch .batching)
  | .draining =>
    if p.batch = [] then some (p.withoutBatch.inStage .settling, [])
    else some (p.withoutBatch.send p.batch .draining)
  | .settling =>
    if p.queue = [] then some ({ p with lifecycle := .closed, stage := .finishing }, [])
    else some (p.inStage .draining, [])
  | .finishing =>
    if p.retries.items = [] then some (p.withoutRetries.inStage .discarding, [])
    else some (p.send [] .final)
  | .discarding => some (p.withoutRetries.inStage .done, [.left .abandoned p.retries.items])
  | .waiting _ | .sending _ _ | .done | .dead => none

/-- The step that an action is, if it is possible. A submission that is refused changes nothing. -/
def step (p : Pipeline) : Action → Option (Pipeline × List Effect)
  | .submit s =>
    match p.submit s with
    | .ok r => some r
    | .error _ => some (p, [])
  | .beginClose =>
    some
      ({ p with
          lifecycle := if p.lifecycle = .accepting then .draining else p.lifecycle
          woken := true }, [])
  | .finishClose =>
    match p.stage with
    | .done | .dead => some ({ p with lifecycle := .closed }, [])
    | _ => none
  | .elapse millis => some ({ p with clock := p.clock + millis }, [])
  | .work jitter => p.work jitter
  | .wakeUp =>
    match p.stage with
    | .waiting deadline =>
      if p.woken then some ({ p with woken := false, stage := .looking deadline }, []) else none
    | _ => none
  | .expire =>
    match p.stage with
    | .waiting deadline => if deadline ≤ p.clock then some (p.inStage .collecting, []) else none
    | _ => none
  | .reply r =>
    match p.stage with
    | .sending batch phase => some (p.receive batch phase r)
    | _ => none

end Pipeline

end TimeSeries
