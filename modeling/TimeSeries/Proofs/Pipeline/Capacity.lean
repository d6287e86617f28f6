import TimeSeries.Proofs.Pipeline.Report

/-!
# The memory of a pipeline

The queue and the retry buffer hold a limited number of records, and beside each of them stands the
number that callers read. `Sized` says of a state that the limits are kept and the numbers are
right. A full queue drops a record before it takes one, which is enough since the policy leaves room
for a batch, and everything else that a step does to the queue shortens it.

A request takes the retry buffer as a whole and at most one batch of the queue, so both limits
together bound what is on its way.
-/

namespace TimeSeries

namespace Pipeline

/-- A full queue keeps its length. -/
theorem length_queue_enqueue (p : Pipeline) (item : Item) :
    (p.enqueue item).1.queue.length =
      if p.policy.queueCapacity ≤ p.queue.length then p.queue.length
      else p.queue.length + 1 := by
  have hroom : 0 < p.policy.queueCapacity :=
    Nat.lt_of_lt_of_le p.policy.batchSize_pos p.policy.batchSize_le
  simp only [enqueue, List.length_append, List.length_drop, List.length_singleton]
  split <;> omega

/-- The limits of the policy are kept, and the numbers beside the records are right. -/
structure Sized (p : Pipeline) : Prop where
  queued : p.queued = p.queue.length
  length_le : p.queue.length ≤ p.policy.queueCapacity
  retries : p.retries.Sound
  capacity : p.retries.capacity = p.policy.retryLimit

namespace Sized

variable {p : Pipeline}

theorem enqueue (hp : p.Sized) (item : Item) : (p.enqueue item).1.Sized := by
  refine ⟨rfl, ?_, hp.retries, hp.capacity⟩
  rw [length_queue_enqueue]
  split
  · exact hp.length_le
  · next hroom => exact Nat.lt_of_not_le hroom

theorem withoutBatch (hp : p.Sized) : p.withoutBatch.Sized :=
  ⟨rfl, Nat.le_trans (List.drop_sublist _ _).length_le hp.length_le, hp.retries, hp.capacity⟩

theorem withoutRetries (hp : p.Sized) : p.withoutRetries.Sized :=
  ⟨hp.queued, hp.length_le, RetryBuffer.sound_empty _, hp.capacity⟩

theorem inStage (hp : p.Sized) (stage : Stage) : (p.inStage stage).Sized :=
  ⟨hp.queued, hp.length_le, hp.retries, hp.capacity⟩

theorem send (hp : p.Sized) (batch : List Pending) (phase : Phase) : (p.send batch phase).1.Sized :=
  ⟨hp.queued, hp.length_le, RetryBuffer.sound_empty _, hp.capacity⟩

theorem receive (hp : p.Sized) (batch : List Pending) (phase : Phase) (r : Reply) :
    (p.receive batch phase r).1.Sized := by
  rw [receive_fst]
  have hretries : (p.retriesBehind batch r).Sound ∧
      (p.retriesBehind batch r).capacity = p.retries.capacity := by
    rw [retriesBehind]
    split
    · exact ⟨hp.retries.offer _, RetryBuffer.capacity_offer _ _⟩
    · exact ⟨hp.retries, rfl⟩
  exact ⟨hp.queued, hp.length_le, hretries.1, hretries.2.trans hp.capacity⟩

theorem of_turn (hp : p.Sized) {q : Pipeline} {a : Action} {effects : List Effect}
    (h : Turn p a q effects) : q.Sized := by
  cases h with
  | accept _ => exact hp.enqueue _
  | flush _ _ => exact hp.withoutBatch.send _ _
  | drain _ _ => exact hp.withoutBatch.send _ _
  | retry _ _ => exact hp.send _ _
  | skip _ _ _ => exact hp.withoutRetries.withoutBatch.inStage _
  | drained _ _ => exact hp.withoutBatch.inStage _
  | pass _ _ => exact hp.withoutRetries.inStage _
  | discard _ => exact hp.withoutRetries.inStage _
  | answer _ => exact hp.receive _ _ _
  -- the other steps leave the records and their numbers alone
  | _ => exact ⟨hp.queued, hp.length_le, hp.retries, hp.capacity⟩

end Sized

/-- A request is the retry buffer as a whole and then at most a batch from the queue. -/
theorem exists_take_of_mem_requests {p q : Pipeline} {a : Action} {effects : List Effect}
    {batch : List Pending} (h : Motion p a q effects) (hbatch : batch ∈ Effect.requests effects) :
    ∃ n, n ≤ p.policy.batchSize ∧ batch = p.retries.items ++ p.queue.take n := by
  cases h with
  | accept _ =>
      rw [enqueue_snd] at hbatch
      split at hbatch <;> simp [tell] at hbatch
  | quiet _ _ _ _ _ _ _ => cases hbatch
  | request hn _ _ _ => exact ⟨_, hn, List.mem_singleton.1 hbatch⟩
  | discard _ => cases hbatch
  | answer _ => simp [requests_receive] at hbatch

section Runs

variable {options : WriteOptions} {policy : BatchOptions} {history : List Transition}
  {p : Pipeline}

theorem sized_of_run (run : Run options policy history p) : p.Sized := by
  induction run with
  | start => exact ⟨rfl, Nat.zero_le _, RetryBuffer.sound_empty _, rfl⟩
  | step action _ hstep ih => exact ih.of_turn (step_turn hstep)

theorem length_request_le {t : Transition} (run : Run options policy history t.before)
    (hstep : t.before.step t.action = some (t.after, t.effects)) {batch : List Pending}
    (hbatch : batch ∈ Effect.requests t.effects) :
    batch.length ≤ policy.retryLimit + policy.batchSize := by
  obtain ⟨n, hn, rfl⟩ := exists_take_of_mem_requests (step_motion hstep) hbatch
  have hsized := sized_of_run run
  have hretries := hsized.retries.length_le
  rw [hsized.capacity] at hretries
  rw [policy_of_run run] at hn hretries
  calc (t.before.retries.items ++ t.before.queue.take n).length
      = t.before.retries.items.length + (t.before.queue.take n).length := List.length_append
    _ ≤ policy.retryLimit + policy.batchSize :=
        Nat.add_le_add hretries (Nat.le_trans (List.length_take_le _ _) hn)

/-- What was sent before comes out of the retry buffer, and what was not comes out of the queue. -/
theorem countP_fresh_le {t : Transition} (run : Run options policy history t.before)
    (hstep : t.before.step t.action = some (t.after, t.effects)) {batch : List Pending}
    (hbatch : batch ∈ Effect.requests t.effects) :
    batch.countP (fun r => decide (r.serial ∉ sent history)) ≤ policy.batchSize := by
  obtain ⟨n, hn, rfl⟩ := exists_take_of_mem_requests (step_motion hstep) hbatch
  have hresent : t.before.retries.items.countP (fun r => decide (r.serial ∉ sent history)) = 0 := by
    refine List.countP_eq_zero.2 fun r hr hfresh => of_decide_eq_true hfresh ?_
    exact mem_sent_of_mem_lastRequest
      ((traced_of_run run).latest r (List.mem_append_left _ hr))
  rw [List.countP_append, hresent, Nat.zero_add]
  calc (t.before.queue.take n).countP (fun r => decide (r.serial ∉ sent history))
      ≤ (t.before.queue.take n).length := List.countP_le_length
    _ ≤ n := List.length_take_le _ _
    _ ≤ policy.batchSize := policy_of_run run ▸ hn

/-- The memory of a pipeline is bounded by its policy. In every state that a run leads to, the queue
and the retry buffer keep their limits and the numbers that callers read are those of the records in
them. Every request holds a record, and not more than the retry buffer and a batch can hold; not
more than a batch of them were never sent before. -/
theorem memory_is_bounded (run : Run options policy history p) :
    (p.queue.length ≤ policy.queueCapacity ∧ p.queued = p.queue.length) ∧
      (p.retries.items.length ≤ policy.retryLimit ∧ p.retrying = p.retries.items.length) ∧
      ∀ earlier t later, history = earlier ++ t :: later →
        ∀ batch ∈ Effect.requests t.effects,
          batch ≠ [] ∧ batch.length ≤ policy.retryLimit + policy.batchSize ∧
            batch.countP (fun r => decide (r.serial ∉ sent earlier)) ≤ policy.batchSize := by
  have hsized := sized_of_run run
  have hpolicy := policy_of_run run
  refine ⟨⟨hpolicy ▸ hsized.length_le, hsized.queued⟩,
    ⟨?_, hsized.retries.size⟩, ?_⟩
  · rw [← hpolicy, ← hsized.capacity]
    exact hsized.retries.length_le
  · rintro earlier t later rfl batch hbatch
    obtain ⟨hbefore, hstep⟩ := run_of_append_cons run
    exact ⟨ne_nil_of_mem_requests (step_motion hstep) hbatch, length_request_le hbefore hstep hbatch,
      countP_fresh_le hbefore hstep hbatch⟩

/-- With room for one record in the retry buffer and for two in the queue, a batch of two fails while
three more are handed in: the newer one of the batch waits for another attempt, the queue drops the
oldest one of the three, and the next request holds as much as a request can. -/
theorem memory_is_bounded_of_failure :
    ∃ history p,
      Run ⟨"db", none, .one, .nanoseconds, by decide, by decide⟩
          ⟨2, 1000, 0, 1, 2, 5, by decide, by decide, by decide⟩ history p ∧
        (requestsIn history).map (fun batch => batch.map Pending.serial) = [[0, 1], [1, 3, 4]] ∧
        (p.queue.length ≤ 2 ∧ p.queued = p.queue.length) ∧
        (p.retries.items.length ≤ 1 ∧ p.retrying = p.retries.items.length) ∧
        ∀ earlier t later, history = earlier ++ t :: later →
          ∀ batch ∈ Effect.requests t.effects,
            batch ≠ [] ∧ batch.length ≤ 1 + 2 ∧
              batch.countP (fun r => decide (r.serial ∉ sent earlier)) ≤ 2 := by
  have run := @run_of_trace? ⟨"db", none, .one, .nanoseconds, by decide, by decide⟩
    ⟨2, 1000, 0, 1, 2, 5, by decide, by decide, by decide⟩ _ _
    [.submit (.record "a f=1i"), .submit (.record "b f=2i"), .work 0, .work 0, .work 0, .work 0,
      .submit (.record "c f=3i"), .submit (.record "d f=4i"), .submit (.record "e f=5i")] rfl
  have more := run_append_of_trace? run (show trace? _
    [.reply (.outcome (.failure (some 503) "busy")), .work 0, .work 0, .work 0, .work 0] =
      some _ from rfl)
  exact ⟨_, _, more, rfl, memory_is_bounded more⟩

end Runs

end Pipeline

end TimeSeries
