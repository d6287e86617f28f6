import TimeSeries.Proofs.Pipeline.Capacity
import TimeSeries.Proofs.Pipeline.Closing

/-!
# What makes the task send a batch

The task sends when a batch is queued, or when the time that it set comes. It looks at the queue
only before it waits, so a submission that completes a batch has to wake it, also when it does not
wait yet. `Awaits` says what each stage may rely on: a task that waits was woken or has no batch to
send, and one that is about to send has a batch or is late. The queue gets no shorter in between,
since a full one takes a record for each one that it drops.

The time of the next batch is part of the stage only as long as the task can still wait for it.
`deadline?` keeps it beyond that, as the time that was set last.
-/

namespace TimeSeries

namespace Pipeline

/-- The time that a transition sets for the next batch. -/
def Transition.deadline? (t : Transition) : Option Nat :=
  match t.before.stage, t.after.stage with
  | .scheduling, .looking deadline => some deadline
  | _, _ => none

/-- The time of the next batch, as it was set last. -/
def deadline? (history : List Transition) : Option Nat :=
  (history.filterMap Transition.deadline?).getLast?

theorem deadline?_concat (history : List Transition) (t : Transition) :
    deadline? (history ++ [t]) = t.deadline?.or (deadline? history) := by
  rw [deadline?, List.filterMap_append]
  cases ht : t.deadline? with
  | none => simp [deadline?, ht]
  | some deadline => simp [ht]

theorem deadline?_eq_none {t : Transition} (h : t.before.stage ≠ .scheduling) :
    t.deadline? = none := by
  rw [Transition.deadline?]
  split
  · next hstage _ => exact absurd hstage h
  · rfl

theorem deadline?_eq_none_of_stage_eq {t : Transition} (h : t.after.stage = t.before.stage) :
    t.deadline? = none := by
  rw [Transition.deadline?]
  split
  · next hbefore hafter => cases hbefore.symm.trans (h.symm.trans hafter)
  · rfl

/-- What a stage of the task may rely on, when `deadline` is the time of the next batch. -/
def Awaits (p : Pipeline) (deadline : Option Nat) : Stage → Prop
  | .looking d | .counting d => deadline = some d
  | .waiting d => deadline = some d ∧ (p.woken = true ∨ p.queue.length < p.policy.batchSize)
  | .collecting => ∃ d, deadline = some d ∧ (d ≤ p.clock ∨ p.policy.batchSize ≤ p.queue.length)
  | _ => True

theorem length_queue_le_enqueue (p : Pipeline) (item : Item) :
    p.queue.length ≤ (p.enqueue item).1.queue.length := by
  rw [length_queue_enqueue]
  split <;> omega

/-- A submission wakes the task when it leaves a batch in the queue. -/
theorem woken_enqueue (p : Pipeline) (item : Item) :
    (p.enqueue item).1.woken = true ∨ (p.enqueue item).1.queue.length < p.policy.batchSize := by
  by_cases hready : p.policy.batchSize ≤ (p.enqueue item).1.queue.length
  · exact Or.inl (Bool.or_eq_true_iff.2 (Or.inr (decide_eq_true hready)))
  · exact Or.inr (Nat.lt_of_not_le hready)

theorem awaits_enqueue {p : Pipeline} {deadline : Option Nat} {stage : Stage}
    (hp : p.Awaits deadline stage) (item : Item) : (p.enqueue item).1.Awaits deadline stage := by
  cases stage with
  | waiting d => exact ⟨hp.1, woken_enqueue p item⟩
  | collecting =>
      obtain ⟨d, hd, hlate | hready⟩ := hp
      · exact ⟨d, hd, Or.inl hlate⟩
      · exact ⟨d, hd, Or.inr (Nat.le_trans hready (length_queue_le_enqueue p item))⟩
  | _ => exact hp

/-- Time passes, and the task may be woken. -/
theorem awaits_of_same {p q : Pipeline} {deadline : Option Nat} {stage : Stage}
    (hp : p.Awaits deadline stage) (hpolicy : q.policy = p.policy) (hqueue : q.queue = p.queue)
    (hwoken : p.woken = true → q.woken = true) (hclock : p.clock ≤ q.clock) :
    q.Awaits deadline stage := by
  cases stage with
  | waiting d =>
      refine ⟨hp.1, hp.2.imp hwoken fun hshort => ?_⟩
      rwa [hqueue, hpolicy]
  | collecting =>
      obtain ⟨d, hd, hlate | hready⟩ := hp
      · exact ⟨d, hd, Or.inl (Nat.le_trans hlate hclock)⟩
      · exact ⟨d, hd, Or.inr (by rwa [hqueue, hpolicy])⟩
  | _ => exact hp

theorem awaits_answer (p : Pipeline) (deadline : Option Nat) (phase : Phase) (r : Reply) :
    p.Awaits deadline (r.next phase) := by
  cases r <;> cases phase <;> trivial

theorem awaits_of_turn {history : List Transition} {p q : Pipeline} {a : Action}
    {effects : List Effect} (h : Turn p a q effects) (hsized : p.Sized)
    (hp : p.Awaits (deadline? history) p.stage) :
    q.Awaits (deadline? (history ++ [⟨p, a, q, effects⟩])) q.stage := by
  rw [deadline?_concat]
  -- a step that sets no time, because of the stage it starts from
  have later (hstage : p.stage ≠ .scheduling)
      (hq : q.Awaits (deadline? history) q.stage) :
      q.Awaits ((Transition.deadline? ⟨p, a, q, effects⟩).or (deadline? history)) q.stage := by
    rw [deadline?_eq_none (t := ⟨p, a, q, effects⟩) hstage]
    exact hq
  -- a step of someone else, which leaves the task where it is
  have aside (hstage : q.stage = p.stage) (hq : q.Awaits (deadline? history) p.stage) :
      q.Awaits ((Transition.deadline? ⟨p, a, q, effects⟩).or (deadline? history)) q.stage := by
    rw [deadline?_eq_none_of_stage_eq (t := ⟨p, a, q, effects⟩) hstage, hstage]
    exact hq
  have relies {stage : Stage} (hstage : p.stage = stage) : p.Awaits (deadline? history) stage :=
    hstage ▸ hp
  cases h with
  | accept _ => exact aside rfl (awaits_enqueue hp _)
  | refuse _ => exact aside rfl hp
  | beginClose => exact aside rfl (awaits_of_same hp rfl rfl (fun _ => rfl) (Nat.le_refl _))
  | finishClose _ => exact aside rfl (awaits_of_same hp rfl rfl id (Nat.le_refl _))
  | elapse => exact aside rfl (awaits_of_same hp rfl rfl id (Nat.le_add_right _ _))
  | wakeUp hstage _ => exact later (by simp [hstage]) (relies hstage).1
  | expire hstage hdue => exact later (by simp [hstage]) ⟨_, (relies hstage).1, Or.inl hdue⟩
  | schedule hstage => simp [Transition.deadline?, hstage, inStage, Awaits]
  | stay hstage _ => exact later (by simp [hstage]) (relies hstage)
  | ready hstage hready =>
      exact later (by simp [hstage]) ⟨_, relies hstage, Or.inr (hsized.queued ▸ hready)⟩
  | rest hstage hshort =>
      exact later (by simp [hstage]) ⟨relies hstage, Or.inr (hsized.queued ▸ hshort)⟩
  | answer hstage =>
      refine later (by simp [hstage]) ?_
      rw [receive_fst]
      exact awaits_answer _ _ _ _
  -- the stages that the others lead to rely on nothing
  | _ => exact later (by simp_all) trivial

/-- While records are taken, a request comes from a task that collects a batch, and it takes a whole
batch off the queue if there is one. -/
theorem collecting_of_mem_requests {p q : Pipeline} {a : Action} {effects : List Effect}
    (h : Turn p a q effects) (hp : p.OnCourse) (hopen : p.lifecycle = .accepting)
    {batch : List Pending} (hbatch : batch ∈ Effect.requests effects) :
    p.stage = .collecting ∧ batch = p.retries.items ++ p.batch := by
  cases h with
  | accept _ =>
      rw [enqueue_snd] at hbatch
      split at hbatch <;> simp [tell] at hbatch
  | flush hstage _ => exact ⟨hstage, List.mem_singleton.1 hbatch⟩
  | drain hstage _ =>
      have hdraining : p.lifecycle = .draining := hp.asks hstage
      cases hopen.symm.trans hdraining
  | retry hstage _ => cases hopen.symm.trans (hp.asks hstage).1
  | answer _ => simp [requests_receive] at hbatch
  | _ => simp at hbatch

section Runs

variable {options : WriteOptions} {policy : BatchOptions} {history : List Transition}
  {p : Pipeline}

theorem awaits_of_run (run : Run options policy history p) :
    p.Awaits (deadline? history) p.stage := by
  induction run with
  | start => trivial
  | step action run hstep ih => exact awaits_of_turn (step_turn hstep) (sized_of_run run) ih

theorem length_lt_of_waiting (run : Run options policy history p) {deadline : Nat}
    (hstage : p.stage = .waiting deadline) (hasleep : p.woken = false) :
    p.queue.length < policy.batchSize := by
  have hawaits : p.Awaits (deadline? history) (.waiting deadline) := hstage ▸ awaits_of_run run
  rcases hawaits.2 with hwoken | hshort
  · cases hasleep.symm.trans hwoken
  · rwa [policy_of_run run] at hshort

/-- The records that a request takes off the queue were never sent. -/
theorem batch_fresh (run : Run options policy history p) :
    ∀ r ∈ p.batch, r.serial ∉ sent history :=
  fun r hr hsent => Nat.lt_irrefl _ ((traced_of_run run).fresh _ hsent r (List.mem_of_mem_take hr))

/-- A batch is sent when it is complete. A task that waits and has not been woken has less than a
batch in the queue, whatever was handed in while it was sending. And while records are taken, a
request in front of the time of the next batch is made only if a batch is queued: it consists of
everything that waits for another attempt and of exactly one batch of records that were never
sent. -/
theorem complete_batch_is_sent (run : Run options policy history p) :
    (∀ deadline, p.stage = .waiting deadline → p.woken = false →
        p.queue.length < policy.batchSize) ∧
      ∀ earlier t later, history = earlier ++ t :: later → t.before.lifecycle = .accepting →
        ∀ batch ∈ Effect.requests t.effects,
          ∃ deadline, deadline? earlier = some deadline ∧
            (t.before.clock < deadline →
              policy.batchSize ≤ t.before.queue.length ∧
                ∃ fresh, batch = t.before.retries.items ++ fresh ∧
                  fresh <+: t.before.queue ∧ fresh.length = policy.batchSize ∧
                  ∀ r ∈ fresh, r.serial ∉ sent earlier) := by
  refine ⟨fun deadline hstage hasleep => length_lt_of_waiting run hstage hasleep, ?_⟩
  rintro earlier t later rfl hopen batch hbatch
  obtain ⟨hbefore, hstep⟩ := run_of_append_cons run
  obtain ⟨hstage, hrequest⟩ :=
    collecting_of_mem_requests (step_turn hstep) (onCourse_of_run hbefore) hopen hbatch
  have hawaits : t.before.Awaits (deadline? earlier) .collecting := hstage ▸ awaits_of_run hbefore
  obtain ⟨deadline, hdeadline, hcause⟩ := hawaits
  refine ⟨deadline, hdeadline, fun hearly => ?_⟩
  have hready : policy.batchSize ≤ t.before.queue.length := by
    rw [← policy_of_run hbefore]
    exact hcause.resolve_left (Nat.not_le_of_lt hearly)
  refine ⟨hready, t.before.batch, hrequest, List.take_prefix _ _, ?_, batch_fresh hbefore⟩
  rw [Pipeline.batch, policy_of_run hbefore, List.length_take, Nat.min_eq_left hready]

/-- Less than a batch is queued while the task waits. Then a batch is sent and fails, and of three
records that are handed in meanwhile a full queue drops one. The next request comes long before its
time and holds the batch that failed and a new one. -/
theorem complete_batch_is_sent_of_failure :
    ∃ calm p earlier t q,
      Run ⟨"db", none, .one, .nanoseconds, by decide, by decide⟩
          ⟨2, 1000, 0, 3, 2, 5, by decide, by decide, by decide⟩ calm p ∧
        (p.stage = .waiting 1000 ∧ p.woken = false ∧ p.queued = 1 ∧ p.queue.length < 2) ∧
        Run ⟨"db", none, .one, .nanoseconds, by decide, by decide⟩
          ⟨2, 1000, 0, 3, 2, 5, by decide, by decide, by decide⟩ (earlier ++ [t]) q ∧
        t.before.lifecycle = .accepting ∧ q.inFlight ∈ Effect.requests t.effects ∧
        q.inFlight.map Pending.serial = [0, 1, 3, 4] ∧
        deadline? earlier = some 1000 ∧ t.before.clock < 1000 ∧
        2 ≤ t.before.queue.length ∧
        ∃ fresh, q.inFlight = t.before.retries.items ++ fresh ∧ fresh <+: t.before.queue ∧
          fresh.length = 2 ∧ ∀ r ∈ fresh, r.serial ∉ sent earlier := by
  have run := @run_of_trace? ⟨"db", none, .one, .nanoseconds, by decide, by decide⟩
    ⟨2, 1000, 0, 3, 2, 5, by decide, by decide, by decide⟩ _ _
    [.submit (.record "a f=1i"), .work 0, .work 0, .work 0] rfl
  have busy := run_append_of_trace? run (show trace? _
    [.submit (.record "b f=2i"), .wakeUp, .work 0, .work 0, .work 0, .submit (.record "c f=3i"),
      .submit (.record "d f=4i"), .submit (.record "e f=5i")] = some _ from rfl)
  have again := run_append_of_trace? busy (show trace? _
    [.reply (.outcome (.failure (some 503) "busy")), .work 0, .work 0, .work 0] = some _ from rfl)
  have last := again.step (.work 0) rfl
  obtain ⟨deadline, hdeadline, hbatch⟩ :=
    (complete_batch_is_sent last).2 _ _ [] rfl rfl _ (List.mem_singleton.2 rfl)
  obtain rfl : 1000 = deadline := Option.some.inj hdeadline
  exact ⟨_, _, _, _, _, run,
    ⟨rfl, rfl, rfl, (complete_batch_is_sent run).1 1000 rfl rfl⟩, last, rfl,
    List.mem_singleton.2 rfl, rfl, rfl, by decide, hbatch (by decide)⟩

end Runs

end Pipeline

end TimeSeries
