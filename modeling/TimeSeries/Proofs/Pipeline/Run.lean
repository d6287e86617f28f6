import Mathlib.Data.List.Induction
import TimeSeries.Write.Session

/-!
# Runs of a write pipeline

A run is a chain of transitions out of the first state of a pipeline. Its history keeps every
transition, so what was accepted and what left the pipeline so far is read off the history and
needs no counters in the state.

`Turn` lists the ways in which a step can go, and `step_turn` is the only place where the step
function is opened. `Motion` says less: what a step does to the records. It lets one in, puts some
on their way, looks at a reply to those on their way, gives up those that wait, or leaves all of
them where they are. The invariants of runs are proved by cases of one or the other.
-/

namespace TimeSeries

namespace Pipeline

/-- A step that was taken. -/
structure Transition where
  before : Pipeline
  action : Action
  after : Pipeline
  effects : List Effect

/-- The runs of a pipeline: the transitions taken so far, and the state they have led to. -/
inductive Run (options : WriteOptions) (policy : BatchOptions) :
    List Transition → Pipeline → Prop where
  | start : Run options policy [] (Pipeline.start options policy)
  | step {history : List Transition} {p q : Pipeline} {effects : List Effect} (action : Action) :
    Run options policy history p → p.step action = some (q, effects) →
      Run options policy (history ++ [⟨p, action, q, effects⟩]) q

section Runs

variable {options : WriteOptions} {policy : BatchOptions}

theorem run_concat_iff {history : List Transition} {t : Transition} {p : Pipeline} :
    Run options policy (history ++ [t]) p ↔
      Run options policy history t.before ∧ t.before.step t.action = some (t.after, t.effects) ∧
        p = t.after := by
  constructor
  · intro run
    generalize hall : history ++ [t] = all at run
    cases run with
    | start => simp at hall
    | step action run hstep =>
        obtain ⟨rfl, ht⟩ := List.append_inj' hall rfl
        obtain rfl := (List.cons.inj ht).1
        exact ⟨run, hstep, rfl⟩
  · rintro ⟨run, hstep, rfl⟩
    exact run.step t.action hstep

/-- A run is cut at any of its transitions: what stands in front of it is a run that leads to it. -/
theorem run_of_append_cons {earlier later : List Transition} {t : Transition} {p : Pipeline}
    (run : Run options policy (earlier ++ t :: later) p) :
    Run options policy earlier t.before ∧ t.before.step t.action = some (t.after, t.effects) := by
  induction later using List.reverseRecOn generalizing p with
  | nil =>
      obtain ⟨hbefore, hstep, -⟩ := run_concat_iff.1 run
      exact ⟨hbefore, hstep⟩
  | append_singleton later u ih =>
      rw [show earlier ++ t :: (later ++ [u]) = (earlier ++ t :: later) ++ [u] by simp] at run
      exact ih (run_concat_iff.1 run).1

theorem step_of_mem_run {history : List Transition} {t : Transition} {p : Pipeline}
    (run : Run options policy history p) (ht : t ∈ history) :
    t.before.step t.action = some (t.after, t.effects) := by
  obtain ⟨earlier, later, rfl⟩ := List.append_of_mem ht
  exact (run_of_append_cons run).2

/-- The transitions of some actions, one after the other, and the state they lead to, if all of them
are possible. -/
def trace? (p : Pipeline) : List Action → Option (List Transition × Pipeline)
  | [] => some ([], p)
  | a :: actions =>
    (p.step a).bind fun r =>
      (trace? r.1 actions).map fun t => (⟨p, a, r.1, r.2⟩ :: t.1, t.2)

theorem run_append_of_trace? {history later : List Transition} {p q : Pipeline}
    {actions : List Action} (run : Run options policy history p)
    (h : p.trace? actions = some (later, q)) : Run options policy (history ++ later) q := by
  induction actions generalizing history later p with
  | nil =>
      obtain ⟨rfl, rfl⟩ : [] = later ∧ p = q := by simpa [trace?] using h
      simpa using run
  | cons a actions ih =>
      obtain ⟨⟨mid, effects⟩, hstep, hmap⟩ := Option.bind_eq_some_iff.1 h
      obtain ⟨⟨rest, last⟩, hrest, heq⟩ := Option.map_eq_some_iff.1 hmap
      obtain ⟨rfl, rfl⟩ := Prod.mk.inj heq
      have hrun := ih (run.step a hstep) hrest
      simpa using hrun

theorem actions_of_trace? {later : List Transition} {p q : Pipeline} {actions : List Action}
    (h : p.trace? actions = some (later, q)) : later.map Transition.action = actions := by
  induction actions generalizing later p with
  | nil =>
      obtain ⟨rfl, -⟩ : [] = later ∧ p = q := by simpa [trace?] using h
      rfl
  | cons a actions ih =>
      obtain ⟨⟨mid, effects⟩, -, hmap⟩ := Option.bind_eq_some_iff.1 h
      obtain ⟨⟨rest, last⟩, hrest, heq⟩ := Option.map_eq_some_iff.1 hmap
      obtain ⟨rfl, rfl⟩ := Prod.mk.inj heq
      rw [List.map_cons, ih hrest]

theorem action_ne_of_trace? {later : List Transition} {p q : Pipeline} {actions : List Action}
    {a : Action} (h : p.trace? actions = some (later, q)) (ha : a ∉ actions) :
    ∀ t ∈ later, t.action ≠ a := by
  rintro t ht rfl
  exact ha (actions_of_trace? h ▸ List.mem_map_of_mem ht)

theorem run_of_trace? {history : List Transition} {p : Pipeline} {actions : List Action}
    (h : (Pipeline.start options policy).trace? actions = some (history, p)) :
    Run options policy history p := by
  simpa using run_append_of_trace? Run.start h

end Runs

/-- The records on their way. -/
def inFlight (p : Pipeline) : List Pending :=
  match p.stage with
  | .sending batch _ => batch
  | _ => []

/-- The item that a submission adds to the queue, if it is accepted. -/
def admits? (p : Pipeline) (s : Submission) : Option Item :=
  if p.lifecycle = .closed then none else (p.encode s).toOption

theorem submit_of_closed {p : Pipeline} (h : p.lifecycle = .closed) (s : Submission)
    (r : Pipeline × List Effect) : p.submit s ≠ .ok r := by
  intro hr
  rw [submit.eq_def] at hr
  split at hr
  · cases hr
  · rw [if_pos h] at hr
    cases hr

theorem submit_of_encode_error {p : Pipeline} {s : Submission} {e : PointError}
    (h : p.encode s = .error e) (r : Pipeline × List Effect) : p.submit s ≠ .ok r := by
  intro hr
  rw [submit.eq_def] at hr
  split at hr
  · cases hr
  · split at hr
    · cases hr
    · rw [h] at hr
      cases hr

theorem submit_of_encode_ok {p : Pipeline} (hopen : p.lifecycle ≠ .closed) {s : Submission}
    {item : Item} (h : p.encode s = .ok item) : p.submit s = .ok (p.enqueue item) := by
  rw [submit.eq_def]
  split
  · next e => cases h
  · rw [if_neg hopen, h]

/-- A submission is accepted exactly when it has an item and the pipeline is not closed, and then
the item is put into the queue. -/
theorem submit_eq_ok_iff {p : Pipeline} {s : Submission} {r : Pipeline × List Effect} :
    p.submit s = .ok r ↔ ∃ item, p.admits? s = some item ∧ r = p.enqueue item := by
  rw [admits?]
  by_cases hclosed : p.lifecycle = .closed
  · simp [hclosed, submit_of_closed hclosed s r]
  · rw [if_neg hclosed]
    cases hencode : p.encode s with
    | error e => simp [submit_of_encode_error hencode r, Except.toOption]
    | ok item => simp [submit_of_encode_ok hclosed hencode, Except.toOption, eq_comm]

/-- No record takes part in the action: a submission is refused, the task gives nothing up, and
there is no reply. -/
def Idle (p : Pipeline) : Action → Prop
  | .submit s => p.admits? s = none
  | .work _ => p.stage ≠ .discarding
  | .reply _ => False
  | _ => True

/-- The ways in which a step can go. -/
inductive Turn (p : Pipeline) : Action → Pipeline → List Effect → Prop where
  | accept {s : Submission} {item : Item} :
    p.admits? s = some item → Turn p (.submit s) (p.enqueue item).1 (p.enqueue item).2
  | refuse {s : Submission} : p.admits? s = none → Turn p (.submit s) p []
  | beginClose :
    Turn p .beginClose
      { p with
          lifecycle := if p.lifecycle = .accepting then .draining else p.lifecycle
          woken := true } []
  | finishClose :
    p.stage = .done ∨ p.stage = .dead → Turn p .finishClose { p with lifecycle := .closed } []
  | elapse {millis : Nat} : Turn p (.elapse millis) { p with clock := p.clock + millis } []
  | wakeUp {deadline : Nat} :
    p.stage = .waiting deadline → p.woken = true →
      Turn p .wakeUp { p with woken := false, stage := .looking deadline } []
  | expire {deadline : Nat} :
    p.stage = .waiting deadline → deadline ≤ p.clock → Turn p .expire (p.inStage .collecting) []
  | schedule {jitter : Nat} :
    p.stage = .scheduling →
      Turn p (.work jitter)
        (p.inStage (.looking (p.clock + (p.policy.flushInterval + min jitter p.policy.jitter)))) []
  | stay {jitter deadline : Nat} :
    p.stage = .looking deadline → p.lifecycle = .accepting →
      Turn p (.work jitter) (p.inStage (.counting deadline)) []
  | leave {jitter deadline : Nat} :
    p.stage = .looking deadline → p.lifecycle ≠ .accepting →
      Turn p (.work jitter) (p.inStage .draining) []
  | ready {jitter deadline : Nat} :
    p.stage = .counting deadline → p.policy.batchSize ≤ p.queued →
      Turn p (.work jitter) (p.inStage .collecting) []
  | rest {jitter deadline : Nat} :
    p.stage = .counting deadline → p.queued < p.policy.batchSize →
      Turn p (.work jitter) (p.inStage (.waiting deadline)) []
  | skip {jitter : Nat} :
    p.stage = .collecting → p.retries.items = [] → p.batch = [] →
      Turn p (.work jitter) (p.withoutRetries.withoutBatch.inStage .scheduling) []
  | flush {jitter : Nat} :
    p.stage = .collecting → p.retries.items ++ p.batch ≠ [] →
      Turn p (.work jitter) (p.withoutBatch.send p.batch .batching).1
        (p.withoutBatch.send p.batch .batching).2
  | drain {jitter : Nat} :
    p.stage = .draining → p.batch ≠ [] →
      Turn p (.work jitter) (p.withoutBatch.send p.batch .draining).1
        (p.withoutBatch.send p.batch .draining).2
  | drained {jitter : Nat} :
    p.stage = .draining → p.batch = [] →
      Turn p (.work jitter) (p.withoutBatch.inStage .settling) []
  | shut {jitter : Nat} :
    p.stage = .settling → p.queue = [] →
      Turn p (.work jitter) { p with lifecycle := .closed, stage := .finishing } []
  | resume {jitter : Nat} :
    p.stage = .settling → p.queue ≠ [] → Turn p (.work jitter) (p.inStage .draining) []
  | retry {jitter : Nat} :
    p.stage = .finishing → p.retries.items ≠ [] →
      Turn p (.work jitter) (p.send [] .final).1 (p.send [] .final).2
  | pass {jitter : Nat} :
    p.stage = .finishing → p.retries.items = [] →
      Turn p (.work jitter) (p.withoutRetries.inStage .discarding) []
  | discard {jitter : Nat} :
    p.stage = .discarding →
      Turn p (.work jitter) (p.withoutRetries.inStage .done) [.left .abandoned p.retries.items]
  | answer {batch : List Pending} {phase : Phase} {r : Reply} :
    p.stage = .sending batch phase →
      Turn p (.reply r) (p.receive batch phase r).1 (p.receive batch phase r).2

theorem work_turn {p q : Pipeline} {jitter : Nat} {effects : List Effect}
    (h : p.work jitter = some (q, effects)) : Turn p (.work jitter) q effects := by
  unfold work at h
  cases hstage : p.stage with
  | scheduling =>
      simp only [hstage, Option.some.injEq, Prod.mk.injEq] at h
      obtain ⟨rfl, rfl⟩ := h
      exact .schedule hstage
  | looking deadline =>
      simp only [hstage, Option.some.injEq, Prod.mk.injEq] at h
      obtain ⟨rfl, rfl⟩ := h
      by_cases hopen : p.lifecycle = .accepting
      · rw [if_pos hopen]
        exact .stay hstage hopen
      · rw [if_neg hopen]
        exact .leave hstage hopen
  | counting deadline =>
      simp only [hstage, Option.some.injEq, Prod.mk.injEq] at h
      obtain ⟨rfl, rfl⟩ := h
      by_cases hready : p.policy.batchSize ≤ p.queued
      · rw [if_pos hready]
        exact .ready hstage hready
      · rw [if_neg hready]
        exact .rest hstage (Nat.lt_of_not_le hready)
  | collecting =>
      simp only [hstage] at h
      by_cases hnone : p.retries.items = [] ∧ p.batch = []
      · simp only [if_pos hnone, Option.some.injEq, Prod.mk.injEq] at h
        obtain ⟨rfl, rfl⟩ := h
        exact .skip hstage hnone.1 hnone.2
      · simp only [if_neg hnone, Option.some.injEq] at h
        obtain ⟨rfl, rfl⟩ := Prod.mk.inj h
        exact .flush hstage fun hall => hnone (List.append_eq_nil_iff.1 hall)
  | draining =>
      simp only [hstage] at h
      by_cases hnone : p.batch = []
      · simp only [if_pos hnone, Option.some.injEq, Prod.mk.injEq] at h
        obtain ⟨rfl, rfl⟩ := h
        exact .drained hstage hnone
      · simp only [if_neg hnone, Option.some.injEq] at h
        obtain ⟨rfl, rfl⟩ := Prod.mk.inj h
        exact .drain hstage hnone
  | settling =>
      simp only [hstage] at h
      by_cases hempty : p.queue = []
      · simp only [if_pos hempty, Option.some.injEq, Prod.mk.injEq] at h
        obtain ⟨rfl, rfl⟩ := h
        exact .shut hstage hempty
      · simp only [if_neg hempty, Option.some.injEq, Prod.mk.injEq] at h
        obtain ⟨rfl, rfl⟩ := h
        exact .resume hstage hempty
  | finishing =>
      simp only [hstage] at h
      by_cases hempty : p.retries.items = []
      · simp only [if_pos hempty, Option.some.injEq, Prod.mk.injEq] at h
        obtain ⟨rfl, rfl⟩ := h
        exact .pass hstage hempty
      · simp only [if_neg hempty, Option.some.injEq] at h
        obtain ⟨rfl, rfl⟩ := Prod.mk.inj h
        exact .retry hstage hempty
  | discarding =>
      simp only [hstage, Option.some.injEq, Prod.mk.injEq] at h
      obtain ⟨rfl, rfl⟩ := h
      exact .discard hstage
  | waiting deadline => simp [hstage] at h
  | sending batch phase => simp [hstage] at h
  | done => simp [hstage] at h
  | dead => simp [hstage] at h

theorem step_turn {p q : Pipeline} {a : Action} {effects : List Effect}
    (h : p.step a = some (q, effects)) : Turn p a q effects := by
  cases a with
  | submit s =>
      cases hs : p.submit s with
      | ok r =>
          simp only [step, hs, Option.some.injEq] at h
          obtain ⟨item, hitem, rfl⟩ := submit_eq_ok_iff.1 hs
          obtain ⟨rfl, rfl⟩ := Prod.mk.inj h
          exact .accept hitem
      | error e =>
          simp only [step, hs, Option.some.injEq, Prod.mk.injEq] at h
          obtain ⟨rfl, rfl⟩ := h
          refine .refuse (Option.eq_none_iff_forall_ne_some.2 fun item hitem => ?_)
          simp [submit_eq_ok_iff.2 ⟨item, hitem, rfl⟩] at hs
  | beginClose =>
      simp only [step, Option.some.injEq, Prod.mk.injEq] at h
      obtain ⟨rfl, rfl⟩ := h
      exact .beginClose
  | finishClose =>
      have ended (hend : p.stage = .done ∨ p.stage = .dead)
          (hq : some ({ p with lifecycle := .closed }, []) = some (q, effects)) :
          Turn p .finishClose q effects := by
        obtain ⟨rfl, rfl⟩ := Prod.mk.inj (Option.some.inj hq)
        exact .finishClose hend
      cases hstage : p.stage with
      | done => exact ended (.inl hstage) (by simpa [step, hstage] using h)
      | dead => exact ended (.inr hstage) (by simpa [step, hstage] using h)
      | _ => simp [step, hstage] at h
  | elapse millis =>
      simp only [step, Option.some.injEq, Prod.mk.injEq] at h
      obtain ⟨rfl, rfl⟩ := h
      exact .elapse
  | work jitter => exact work_turn h
  | wakeUp =>
      cases hstage : p.stage with
      | waiting deadline =>
          simp only [step, hstage] at h
          by_cases hwoken : p.woken = true
          · simp only [if_pos hwoken, Option.some.injEq, Prod.mk.injEq] at h
            obtain ⟨rfl, rfl⟩ := h
            exact .wakeUp hstage hwoken
          · simp [hwoken] at h
      | _ => simp [step, hstage] at h
  | expire =>
      cases hstage : p.stage with
      | waiting deadline =>
          simp only [step, hstage] at h
          by_cases hdue : deadline ≤ p.clock
          · simp only [if_pos hdue, Option.some.injEq, Prod.mk.injEq] at h
            obtain ⟨rfl, rfl⟩ := h
            exact .expire hstage hdue
          · simp [hdue] at h
      | _ => simp [step, hstage] at h
  | reply r =>
      cases hstage : p.stage with
      | sending batch phase =>
          simp only [step, hstage, Option.some.injEq] at h
          obtain ⟨rfl, rfl⟩ := Prod.mk.inj h
          exact .answer hstage
      | _ => simp [step, hstage] at h

/-- What a step does to the records. -/
inductive Motion (p : Pipeline) : Action → Pipeline → List Effect → Prop where
  /-- A record comes in. -/
  | accept {s : Submission} {item : Item} :
    p.admits? s = some item → Motion p (.submit s) (p.enqueue item).1 (p.enqueue item).2
  /-- All records stay where they are. -/
  | quiet {a : Action} {q : Pipeline} :
    q.options = p.options → q.policy = p.policy → q.queue = p.queue →
      q.retries.items = p.retries.items → q.inFlight = p.inFlight → q.accepted = p.accepted → p.Idle a → Motion p a q []
  /-- Everything that waits for another attempt and some records of the queue are sent. -/
  | request {n queued jitter : Nat} {phase : Phase} :
    n ≤ p.policy.batchSize → p.inFlight = [] → p.stage ≠ .discarding →
      p.retries.items ++ p.queue.take n ≠ [] →
      Motion p (.work jitter)
        (({ p with queue := p.queue.drop n, queued }).send (p.queue.take n) phase).1
        [.request (p.retries.items ++ p.queue.take n)]
  /-- What waits for another attempt is given up. -/
  | discard {jitter : Nat} :
    p.stage = .discarding →
      Motion p (.work jitter) (p.withoutRetries.inStage .done) [.left .abandoned p.retries.items]
  /-- There is a reply for the records on their way. -/
  | answer {batch : List Pending} {phase : Phase} {r : Reply} :
    p.stage = .sending batch phase →
      Motion p (.reply r) (p.receive batch phase r).1 (p.receive batch phase r).2

theorem inFlight_of_stage {p : Pipeline} {batch : List Pending} {phase : Phase}
    (h : p.stage = .sending batch phase) : p.inFlight = batch := by
  simp [inFlight, h]

/-- Without a batch there is nothing in the queue, since a batch can hold a record. -/
theorem queue_withoutBatch {p : Pipeline} (h : p.batch = []) : p.withoutBatch.queue = p.queue := by
  have hqueue : p.queue = [] :=
    (List.take_eq_nil_iff.1 h).resolve_left (Nat.pos_iff_ne_zero.1 p.policy.batchSize_pos)
  rw [withoutBatch, hqueue, List.drop_nil]

theorem Turn.motion {p q : Pipeline} {a : Action} {effects : List Effect}
    (h : Turn p a q effects) : Motion p a q effects := by
  -- a step of the task that leaves the records alone
  have calm {jitter : Nat} {stage : Stage} (hstage : p.stage ≠ .discarding)
      (hp : p.inFlight = []) (hq : (p.inStage stage).inFlight = []) :
      Motion p (.work jitter) (p.inStage stage) [] :=
    .quiet rfl rfl rfl rfl (hq.trans hp.symm) rfl hstage
  cases h with
  | accept hitem => exact .accept hitem
  | refuse hnone => exact .quiet rfl rfl rfl rfl rfl rfl hnone
  | beginClose => exact .quiet rfl rfl rfl rfl rfl rfl trivial
  | finishClose _ => exact .quiet rfl rfl rfl rfl rfl rfl trivial
  | elapse => exact .quiet rfl rfl rfl rfl rfl rfl trivial
  | wakeUp hstage _ => exact .quiet rfl rfl rfl rfl (by simp [inFlight, hstage]) rfl trivial
  | expire hstage _ =>
      exact .quiet rfl rfl rfl rfl (by simp [inStage, inFlight, hstage]) rfl trivial
  | schedule hstage => exact calm (by simp [hstage]) (by simp [inFlight, hstage]) rfl
  | stay hstage _ => exact calm (by simp [hstage]) (by simp [inFlight, hstage]) rfl
  | leave hstage _ => exact calm (by simp [hstage]) (by simp [inFlight, hstage]) rfl
  | ready hstage _ => exact calm (by simp [hstage]) (by simp [inFlight, hstage]) rfl
  | rest hstage _ => exact calm (by simp [hstage]) (by simp [inFlight, hstage]) rfl
  | skip hstage hnone hbatch =>
      exact .quiet rfl rfl (queue_withoutBatch hbatch) hnone.symm (by simp [inStage, inFlight, hstage])
        rfl (by simp [Idle, hstage])
  | flush hstage hsome =>
      exact .request (Nat.le_refl _) (by simp [inFlight, hstage]) (by simp [hstage]) hsome
  | drain hstage hsome =>
      refine .request (Nat.le_refl _) (by simp [inFlight, hstage]) (by simp [hstage]) ?_
      exact fun hall => hsome (List.append_eq_nil_iff.1 hall).2
  | drained hstage hbatch =>
      exact .quiet rfl rfl (queue_withoutBatch hbatch) rfl (by simp [inStage, inFlight, hstage]) rfl
        (by simp [Idle, hstage])
  | shut hstage _ =>
      exact .quiet rfl rfl rfl rfl (by simp [inFlight, hstage]) rfl (by simp [Idle, hstage])
  | resume hstage _ => exact calm (by simp [hstage]) (by simp [inFlight, hstage]) rfl
  | retry hstage hsome =>
      refine .request (Nat.zero_le _) (by simp [inFlight, hstage]) (by simp [hstage]) ?_
      exact fun hall => hsome (List.append_eq_nil_iff.1 hall).1
  | pass hstage hnone =>
      exact .quiet rfl rfl rfl hnone.symm (by simp [inStage, inFlight, hstage]) rfl
        (by simp [Idle, hstage])
  | discard hstage => exact .discard hstage
  | answer hstage => exact .answer hstage

theorem step_motion {p q : Pipeline} {a : Action} {effects : List Effect}
    (h : p.step a = some (q, effects)) : Motion p a q effects :=
  (step_turn h).motion

end Pipeline

end TimeSeries
