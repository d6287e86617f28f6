import TimeSeries.Proofs.Pipeline.Exchange

/-!
# Resends are bounded

A record counts its attempts, and the counter is raised in one place, when the record comes back
from a request. `Counted` ties the counter to the requests of a history: a record that waits for
another attempt has as many attempts as there are requests with it, one on its way has one less,
and one in the queue none. The counter is a number of 32 bits. Records expire before it is at its
end, unless the limit is the largest such number.
-/

namespace TimeSeries

theorem Pending.toNat_attempts_failed {r : Pending} (h : r.attempts.toNat + 1 < UInt32.size) :
    r.failed.attempts.toNat = r.attempts.toNat + 1 := by
  change (r.attempts + 1).toNat = _
  rw [UInt32.toNat_add, UInt32.toNat_one, Nat.mod_eq_of_lt h]

namespace Pipeline

/-- The number of requests that a record is part of. -/
def partsOf (k : Nat) (requests : List (List Pending)) : Nat :=
  requests.countP fun batch => decide (k ∈ batch.map Pending.serial)

theorem partsOf_append (k : Nat) (earlier later : List (List Pending)) :
    partsOf k (earlier ++ later) = partsOf k earlier + partsOf k later :=
  List.countP_append

theorem partsOf_singleton_of_mem {k : Nat} {batch : List Pending}
    (h : k ∈ batch.map Pending.serial) : partsOf k [batch] = 1 := by
  rw [partsOf, List.countP_singleton, if_pos (decide_eq_true h)]

theorem partsOf_singleton_of_not_mem {k : Nat} {batch : List Pending}
    (h : k ∉ batch.map Pending.serial) : partsOf k [batch] = 0 := by
  rw [partsOf, List.countP_singleton, if_neg (by simpa using h)]

theorem partsOf_requestsIn_eq_zero {history : List Transition} {k : Nat} (h : k ∉ sent history) :
    partsOf k (requestsIn history) = 0 := by
  refine List.countP_eq_zero.2 fun batch hbatch hk => h ?_
  exact mem_sent_iff.2 ⟨batch, hbatch, of_decide_eq_true hk⟩

/-- How the attempts of records and the requests of a history belong together. -/
structure Counted (policy : BatchOptions) (history : List Transition) (p : Pipeline) : Prop where
  queued : ∀ r ∈ p.queue, r.attempts = 0
  returned : ∀ r ∈ p.retries.items,
    1 ≤ r.attempts.toNat ∧ r.attempts.toNat ≤ policy.maxRetries.toNat ∧
      partsOf r.serial (requestsIn history) = r.attempts.toNat
  flying : ∀ r ∈ p.inFlight,
    r.attempts.toNat ≤ policy.maxRetries.toNat ∧
      partsOf r.serial (requestsIn history) = r.attempts.toNat + 1
  bounded : ∀ k, partsOf k (requestsIn history) ≤ policy.maxRetries.toNat + 1

theorem mem_kept_iff {p : Pipeline} {records : List Pending} {r : Pending} :
    r ∈ p.kept records ↔
      (∃ s ∈ records, s.failed = r) ∧ r.attempts.toNat ≤ p.policy.maxRetries.toNat := by
  rw [kept, List.mem_filter, List.mem_map, decide_eq_true_iff, UInt32.le_iff_toNat_le]

/-- What a reply leaves in the retry buffer waited there before or was in the request. -/
theorem mem_retries_receive {p : Pipeline} {batch : List Pending} {phase : Phase} {r : Reply}
    {x : Pending} (h : x ∈ (p.receive batch phase r).1.retries.items) :
    x ∈ p.retries.items ∨
      (∃ s ∈ batch, s.failed = x) ∧ x.attempts.toNat ≤ p.policy.maxRetries.toNat := by
  rw [receive_fst, items_retriesBehind] at h
  have hmem : x ∈ p.retries.items ++ p.kept (r.returned batch) := by
    rw [← RetryBuffer.offer_items]
    exact List.mem_append_right _ h
  rcases List.mem_append.1 hmem with hmem | hmem
  · exact Or.inl hmem
  · obtain ⟨⟨s, hs, hfailed⟩, hle⟩ := mem_kept_iff.1 hmem
    exact Or.inr ⟨⟨s, (returned_sublist r batch).subset hs, hfailed⟩, hle⟩

section Runs

variable {options : WriteOptions} {policy : BatchOptions} {history : List Transition}
  {p : Pipeline}

theorem not_mem_sent_of_mem_queue (run : Run options policy history p) {r : Pending}
    (hr : r ∈ p.queue) : r.serial ∉ sent history :=
  fun hsent => Nat.lt_irrefl _ ((traced_of_run run).fresh _ hsent r hr)

namespace Counted

variable {q : Pipeline} {a : Action} {effects : List Effect}

/-- Without a request records stay what they are, come in, or come back from the request. -/
theorem of_silent (h : Counted policy history p) (hmax : policy.maxRetries.toNat < UInt32.size - 1)
    (hnone : Effect.requests effects = []) (hqueue : ∀ r ∈ q.queue, r ∈ p.queue ∨ r.attempts = 0)
    (hretries : ∀ r ∈ q.retries.items, r ∈ p.retries.items ∨
      (∃ s ∈ p.inFlight, s.failed = r) ∧ r.attempts.toNat ≤ policy.maxRetries.toNat)
    (hflight : ∀ r ∈ q.inFlight, r ∈ p.inFlight) :
    Counted policy (history ++ [⟨p, a, q, effects⟩]) q := by
  have hrequests : requestsIn (history ++ [⟨p, a, q, effects⟩]) = requestsIn history := by
    rw [requestsIn_append, requestsIn_singleton, hnone, List.append_nil]
  refine ⟨fun r hr => ?_, fun r hr => ?_, fun r hr => ?_, fun k => ?_⟩
  · rcases hqueue r hr with hr | hr
    · exact h.queued r hr
    · exact hr
  · rw [hrequests]
    rcases hretries r hr with hr | ⟨⟨s, hs, rfl⟩, hle⟩
    · exact h.returned r hr
    · obtain ⟨hattempts, hparts⟩ := h.flying s hs
      have hcount := Pending.toNat_attempts_failed (r := s) (by omega)
      exact ⟨by omega, hle, hparts.trans hcount.symm⟩
  · rw [hrequests]
    exact h.flying r (hflight r hr)
  · rw [hrequests]
    exact h.bounded k

/-- A request takes records that came back and records of the queue, which were in none before. -/
theorem of_request (h : Counted policy history p) (run : Run options policy history p) {n : Nat}
    (hrequest : Effect.requests effects = [q.inFlight])
    (hflight : q.inFlight = p.retries.items ++ p.queue.take n) (hqueue : q.queue = p.queue.drop n)
    (hretries : q.retries.items = []) : Counted policy (history ++ [⟨p, a, q, effects⟩]) q := by
  have hparts (k : Nat) : partsOf k (requestsIn (history ++ [⟨p, a, q, effects⟩])) =
      partsOf k (requestsIn history) + partsOf k [q.inFlight] := by
    rw [requestsIn_append, requestsIn_singleton, partsOf_append, hrequest]
  have hflying : ∀ r ∈ q.inFlight, r.attempts.toNat ≤ policy.maxRetries.toNat ∧
      partsOf r.serial (requestsIn history) = r.attempts.toNat := by
    intro r hr
    rcases List.mem_append.1 (hflight ▸ hr) with hr | hr
    · exact (h.returned r hr).2
    · have hwaits := List.mem_of_mem_take hr
      rw [partsOf_requestsIn_eq_zero (not_mem_sent_of_mem_queue run hwaits), h.queued r hwaits]
      exact ⟨Nat.zero_le _, rfl⟩
  refine ⟨fun r hr => ?_, fun r hr => ?_, fun r hr => ?_, fun k => ?_⟩
  · exact h.queued r (List.mem_of_mem_drop (hqueue ▸ hr))
  · rw [hretries] at hr
    cases hr
  · obtain ⟨hle, hbefore⟩ := hflying r hr
    rw [hparts, hbefore, partsOf_singleton_of_mem (List.mem_map_of_mem hr)]
    exact ⟨hle, rfl⟩
  · rw [hparts]
    by_cases hk : k ∈ q.inFlight.map Pending.serial
    · obtain ⟨r, hr, rfl⟩ := List.mem_map.1 hk
      obtain ⟨hle, hbefore⟩ := hflying r hr
      rw [hbefore, partsOf_singleton_of_mem hk]
      exact Nat.succ_le_succ hle
    · rw [partsOf_singleton_of_not_mem hk, Nat.add_zero]
      exact h.bounded k

end Counted

theorem counted_of_run (run : Run options policy history p)
    (hmax : policy.maxRetries.toNat < UInt32.size - 1) : Counted policy history p := by
  induction run with
  | start =>
      exact ⟨fun r hr => absurd hr List.not_mem_nil, fun r hr => absurd hr List.not_mem_nil,
        fun r hr => absurd hr List.not_mem_nil, fun k => Nat.zero_le _⟩
  | @step history p q effects action run hstep ih =>
      cases step_motion hstep with
      | @accept s item hitem =>
          refine ih.of_silent hmax ?_ (fun r hr => ?_) (fun r hr => Or.inl hr) fun r hr => hr
          · rw [enqueue_snd]
            split <;> simp [tell]
          · have hmem : r ∈ p.queue ++ [⟨p.accepted, item, 0⟩] := by
              rw [← overflow_append_queue_enqueue]
              exact List.mem_append_right _ hr
            rcases List.mem_append.1 hmem with hr | hr
            · exact Or.inl hr
            · rw [List.mem_singleton.1 hr]
              exact Or.inr rfl
      | quiet _ _ hqueue hretries hflight _ _ =>
          exact ih.of_silent hmax rfl (fun r hr => Or.inl (hqueue ▸ hr))
            (fun r hr => Or.inl (hretries ▸ hr)) fun r hr => hflight ▸ hr
      | request _ _ _ _ => exact ih.of_request run rfl rfl rfl rfl
      | discard _ =>
          exact ih.of_silent hmax rfl (fun r hr => Or.inl hr)
            (fun r hr => absurd hr List.not_mem_nil) fun r hr => absurd hr List.not_mem_nil
      | @answer batch phase r hstage =>
          refine ih.of_silent hmax (requests_receive p _ _ _) (fun x hx => Or.inl ?_)
            (fun x hx => ?_) fun x hx => ?_
          · rwa [receive_fst] at hx
          · rw [inFlight_of_stage hstage, ← policy_of_run run]
            exact mem_retries_receive hx
          · rw [inFlight_receive] at hx
            cases hx

/-- Resends are bounded by the limit of the policy. A record of the queue had no attempt and was in
no request. One that waits for another attempt had as many as there are answered requests with it,
at least one and not more than the limit, and so had one on its way, which may be its first. No
record is in more requests than the limit and one, the last attempt at the end included. -/
theorem resends_are_bounded (run : Run options policy history p)
    (hmax : policy.maxRetries.toNat < UInt32.size - 1) :
    (∀ r ∈ p.queue, r.attempts = 0 ∧ r.serial ∉ sent history) ∧
      (∀ r ∈ p.retries.items,
        1 ≤ r.attempts.toNat ∧ r.attempts.toNat ≤ policy.maxRetries.toNat ∧
          r.attempts.toNat = partsOf r.serial (answered history)) ∧
      (∀ r ∈ p.inFlight,
        r.attempts.toNat ≤ policy.maxRetries.toNat ∧
          r.attempts.toNat = partsOf r.serial (answered history)) ∧
      ∀ k, partsOf k (requestsIn history) ≤ policy.maxRetries.toNat + 1 := by
  have hcounted := counted_of_run run hmax
  refine ⟨fun r hr => ⟨hcounted.queued r hr, not_mem_sent_of_mem_queue run hr⟩, fun r hr => ?_,
    fun r hr => ?_, hcounted.bounded⟩
  · -- while something waits, no request is without its answer
    have hswept : ¬p.stage.Swept := fun hswept => by
      rw [retries_eq_nil_of_run run hswept] at hr
      cases hr
    have hlive : p.stage ≠ .dead := fun hdead => hswept (hdead ▸ trivial)
    obtain ⟨hpos, hle, hparts⟩ := hcounted.returned r hr
    rw [requestsIn_eq_answered run hlive, unanswered_eq_nil hswept, List.append_nil] at hparts
    exact ⟨hpos, hle, hparts.symm⟩
  · have hlive : p.stage ≠ .dead := fun hdead => by
      rw [inFlight, hdead] at hr
      cases hr
    obtain ⟨hle, hparts⟩ := hcounted.flying r hr
    rw [requestsIn_eq_answered run hlive, unanswered_eq_singleton (List.ne_nil_of_mem hr),
      partsOf_append, partsOf_singleton_of_mem (List.mem_map_of_mem hr)] at hparts
    exact ⟨hle, (Nat.succ_inj.1 hparts).symm⟩

/-- With a limit of two, a record fails while batches are sent and while the queue is emptied, and
it is in the last request too. -/
theorem resends_are_bounded_of_last_attempt :
    ∃ history p,
      Run ⟨"db", none, .one, .nanoseconds, by decide, by decide⟩
          ⟨1, 1000, 0, 3, 2, 2, by decide, by decide, by decide⟩ history p ∧
        (requestsIn history).map (fun batch => batch.map Pending.serial) = [[0], [0, 1], [0, 1]] ∧
        p.retries.items.map (fun r => (r.serial, r.attempts)) = [(1, 2)] ∧
        partsOf 0 (requestsIn history) = 2 + 1 ∧ partsOf 1 (answered history) = 2 ∧
        ∀ k, partsOf k (requestsIn history) ≤ 2 + 1 := by
  have run := @run_of_trace? ⟨"db", none, .one, .nanoseconds, by decide, by decide⟩
    ⟨1, 1000, 0, 3, 2, 2, by decide, by decide, by decide⟩ _ _
    [.submit (.record "a f=1i"), .work 0, .work 0, .work 0, .work 0,
      .submit (.record "b f=2i"), .beginClose, .reply (.outcome (.failure none "lost")), .work 0,
      .work 0, .work 0, .reply (.outcome (.rejected [0, 1] "no")), .work 0, .work 0, .work 0,
      .reply (.fault .closed)] rfl
  exact ⟨_, _, run, rfl, rfl, rfl, rfl, (resends_are_bounded run (by decide)).2.2.2⟩

end Runs

end Pipeline

end TimeSeries
