import TimeSeries.Proofs.Pipeline.Closing
import TimeSeries.Proofs.Pipeline.Exchange

/-!
# What a closed pipeline still does

The task closes the pipeline when it finds the queue empty, and makes the last attempt for the
records that failed after that. So a pipeline is closed before it has finished: `ahead` is the
request that it still has to send, and what closed pipelines send, together with what lies ahead of
them, stays the same (`requests_append_ahead`). Nothing else is sent, and nothing at all when no
record waits for another attempt.
-/

namespace TimeSeries

/-- The stages of a closed pipeline. -/
def Stage.Late : Stage → Prop
  | .finishing | .discarding | .done | .dead | .sending _ .final => True
  | _ => False

namespace Pipeline

theorem late_of_closed {p : Pipeline} (hp : p.OnCourse) (hclosed : p.lifecycle = .closed) :
    p.stage.Late := by
  -- a stage that asks for a pipeline that is not closed
  have before {P : Prop} (hopen : p.lifecycle ≠ .closed) : P := absurd hclosed hopen
  have draining {P : Prop} (hopen : p.lifecycle = .draining) : P :=
    before (by rw [hopen]; decide)
  cases hstage : p.stage with
  | finishing => trivial
  | discarding => trivial
  | done => trivial
  | dead => trivial
  | sending batch phase =>
      cases phase with
      | batching => exact before (hp.asks hstage)
      | draining => exact draining (hp.asks hstage)
      | final => trivial
  | draining => exact draining (hp.asks hstage)
  | settling => exact draining (hp.asks hstage)
  | _ => exact before (hp.asks hstage)

/-- The last attempt, as long as it lies ahead. -/
def ahead (p : Pipeline) : List (List Pending) :=
  match p.stage with
  | .finishing => if p.retries.items = [] then [] else [p.retries.items]
  | _ => []

theorem ahead_of_stage {p : Pipeline} (h : p.stage ≠ .finishing) : p.ahead = [] := by
  rw [ahead]
  split
  · next hstage => exact absurd hstage h
  · rfl

theorem ahead_of_finishing {p : Pipeline} (h : p.stage = .finishing) :
    p.ahead = if p.retries.items = [] then [] else [p.retries.items] := by
  simp only [ahead, h]

/-- What a closed pipeline sends lay ahead of it. -/
theorem closed_of_turn {p q : Pipeline} {a : Action} {effects : List Effect}
    (h : Turn p a q effects) (hp : p.OnCourse) (hclosed : p.lifecycle = .closed) :
    q.lifecycle = .closed ∧ Effect.requests effects ++ q.ahead = p.ahead := by
  have hlate := late_of_closed hp hclosed
  cases h with
  | accept hitem => exact absurd hclosed (ne_closed_of_admits? hitem)
  | refuse _ => exact ⟨hclosed, rfl⟩
  | beginClose => exact ⟨by simp [hclosed], rfl⟩
  | finishClose _ => exact ⟨rfl, rfl⟩
  | elapse => exact ⟨hclosed, rfl⟩
  | retry hstage hsome =>
      refine ⟨hclosed, ?_⟩
      rw [ahead_of_finishing hstage, if_neg hsome, ahead_of_stage (by simp [send])]
      simp [send, RetryBuffer.drain, Effect.requests]
  | pass hstage hnone =>
      refine ⟨hclosed, ?_⟩
      rw [ahead_of_finishing hstage, if_pos hnone, ahead_of_stage (by simp [inStage])]
      rfl
  | discard hstage => exact ⟨hclosed, by rw [ahead_of_stage (p := p) (by simp [hstage])]; rfl⟩
  | @answer batch phase r hstage =>
      refine ⟨by rw [receive_fst]; exact hclosed, ?_⟩
      rw [requests_receive, ahead_of_stage (p := p) (by simp [hstage]), receive_fst, ahead_of_stage]
      · rfl
      · cases r <;> cases phase <;> simp [Reply.next, Phase.next]
  -- the other steps are those of a pipeline that is not closed
  | _ => simp_all [Stage.Late]

section Runs

variable {options : WriteOptions} {policy : BatchOptions} {history : List Transition}
  {p : Pipeline}

/-- What is sent since a pipeline is closed, and what still lies ahead of it, lay ahead when it was
closed. -/
theorem requests_append_ahead {earlier later : List Transition} {t : Transition}
    (run : Run options policy (earlier ++ t :: later) p) (hclosed : t.after.lifecycle = .closed) :
    p.lifecycle = .closed ∧ requestsIn later ++ p.ahead = t.after.ahead := by
  induction later using List.reverseRecOn generalizing p with
  | nil =>
      obtain ⟨-, -, rfl⟩ := run_concat_iff.1 run
      exact ⟨hclosed, rfl⟩
  | append_singleton later u ih =>
      rw [show earlier ++ t :: (later ++ [u]) = (earlier ++ t :: later) ++ [u] by simp] at run
      obtain ⟨hbefore, hstep, rfl⟩ := run_concat_iff.1 run
      obtain ⟨hstill, hahead⟩ := ih hbefore
      obtain ⟨hlast, hlength⟩ := closed_of_turn (step_turn hstep) (onCourse_of_run hbefore) hstill
      rw [requestsIn_append, requestsIn_singleton, List.append_assoc, hlength]
      exact ⟨hlast, hahead⟩

/-- Where the records of a closed pipeline can be. -/
theorem places_of_closed (run : Run options policy history p) (hclosed : p.lifecycle = .closed) :
    (p.queue = [] ∨ p.stage = .dead) ∧
      (p.retries.items = [] ∨ p.stage = .finishing ∨ p.stage = .discarding) ∧
      (p.inFlight = [] ∨ ∃ batch, p.stage = .sending batch .final) := by
  have hcourse := onCourse_of_run run
  have hswept := retries_eq_nil_of_run run
  have hlate := late_of_closed hcourse hclosed
  cases hstage : p.stage with
  | finishing => simp [(hcourse.asks hstage).2, inFlight, hstage]
  | discarding => simp [(hcourse.asks hstage).2, inFlight, hstage]
  | done =>
      obtain ⟨-, hqueue, hretries⟩ := hcourse.asks hstage
      simp [hqueue, hretries, inFlight, hstage]
  | dead => simp [hswept (hstage ▸ trivial), inFlight, hstage]
  | sending batch phase =>
      cases phase with
      | final => simp [(hcourse.asks hstage).2, hswept (hstage ▸ trivial)]
      | _ =>
          rw [hstage] at hlate
          exact hlate.elim
  | _ =>
      rw [hstage] at hlate
      exact hlate.elim

/-- A closed pipeline still has the last attempt to make. Its queue is empty unless the task broke
down, records wait for another attempt only in front of the last request or when they are about to
be given up, and only the last request is on its way. What is sent from then on is the last attempt
if it lay ahead, and else nothing. When the task is done, nothing is left and nothing is sent. -/
theorem closed_pipeline_sends_last_attempt (run : Run options policy history p) :
    ∀ earlier t later, history = earlier ++ t :: later → t.after.lifecycle = .closed →
      ((t.after.queue = [] ∨ t.after.stage = .dead) ∧
          (t.after.retries.items = [] ∨ t.after.stage = .finishing ∨
            t.after.stage = .discarding) ∧
          (t.after.inFlight = [] ∨ ∃ batch, t.after.stage = .sending batch .final)) ∧
        (p.lifecycle = .closed ∧ requestsIn later ++ p.ahead = t.after.ahead) ∧
        (t.after.stage = .done →
          t.after.queue = [] ∧ t.after.retries.items = [] ∧ t.after.inFlight = [] ∧
            requestsIn later = []) := by
  rintro earlier t later rfl hclosed
  obtain ⟨hbefore, hstep⟩ := run_of_append_cons run
  have hafter := hbefore.step t.action hstep
  have hrequests := requests_append_ahead run hclosed
  refine ⟨places_of_closed hafter hclosed, hrequests, fun hdone => ?_⟩
  have hnone : t.after.ahead = [] := ahead_of_stage (by rw [hdone]; decide)
  obtain ⟨-, hqueue, hretries⟩ := (onCourse_of_run hafter).asks hdone
  exact ⟨hqueue, hretries, by simp [inFlight, hdone],
    (List.append_eq_nil_iff.1 (hrequests.2.trans hnone)).1⟩

/-- A record fails while batches are sent and is in the last request, which fails too. -/
theorem closed_pipeline_sends_last_attempt_of_failure :
    ∃ history p earlier t later,
      Run ⟨"db", none, .one, .nanoseconds, by decide, by decide⟩
          ⟨1, 1000, 0, 3, 2, 5, by decide, by decide, by decide⟩ history p ∧
        history = earlier ++ t :: later ∧ t.after.lifecycle = .closed ∧
        t.after.ahead.map (fun batch => batch.map Pending.serial) = [[0]] ∧ p.ahead = [] ∧
        requestsIn later ++ p.ahead = t.after.ahead := by
  have run := @run_of_trace? ⟨"db", none, .one, .nanoseconds, by decide, by decide⟩
    ⟨1, 1000, 0, 3, 2, 5, by decide, by decide, by decide⟩ _ _
    [.submit (.record "a f=1i"), .work 0, .work 0, .work 0, .work 0,
      .reply (.outcome (.failure (some 503) "busy")), .beginClose, .work 0, .work 0, .work 0] rfl
  have more := run_append_of_trace? run (show trace? _
    [.work 0, .work 0, .reply (.outcome (.failure (some 503) "busy")), .work 0] =
      some (_ :: _, _) from rfl)
  exact ⟨_, _, _, _, _, more, rfl, rfl, rfl, rfl,
    (closed_pipeline_sends_last_attempt more _ _ _ rfl rfl).2.1.2⟩

/-- The pipeline is closed while a record waits for another attempt, and then the record is sent. -/
theorem closed_pipeline_not_finished :
    ∃ earlier later p q,
      Run ⟨"db", none, .one, .nanoseconds, by decide, by decide⟩
          ⟨1, 1000, 0, 3, 2, 5, by decide, by decide, by decide⟩ earlier p ∧
        Run ⟨"db", none, .one, .nanoseconds, by decide, by decide⟩
          ⟨1, 1000, 0, 3, 2, 5, by decide, by decide, by decide⟩ (earlier ++ later) q ∧
        p.lifecycle = .closed ∧ p.retries.items ≠ [] ∧
        q.lifecycle = .closed ∧ requestsIn later = [q.inFlight] ∧ q.inFlight ≠ [] := by
  have run := @run_of_trace? ⟨"db", none, .one, .nanoseconds, by decide, by decide⟩
    ⟨1, 1000, 0, 3, 2, 5, by decide, by decide, by decide⟩ _ _
    [.submit (.record "a f=1i"), .work 0, .work 0, .work 0, .work 0,
      .reply (.outcome (.failure (some 503) "busy")), .beginClose, .work 0, .work 0, .work 0,
      .work 0] rfl
  have more := run_append_of_trace? run (show trace? _ [.work 0] = some _ from rfl)
  exact ⟨_, _, _, _, run, more, rfl, by decide, rfl, rfl, by decide⟩

end Runs

end Pipeline

end TimeSeries
