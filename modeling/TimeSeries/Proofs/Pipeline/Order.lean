import TimeSeries.Proofs.Pipeline.Conservation

/-!
# Requests keep the order of acceptance

The records that a pipeline still has to do with stand in one line: first those that were sent and
may be sent again, then the queue. `motion_lineup` says what a step does to this line: it shortens
it and lets at most one record in at its end, or it sends the front of it. So the numbers of the
line stay increasing, and everything that was ever sent has a smaller number than the queue. Both
ends of a request follow from that, and the order of first attempts.
-/

namespace TimeSeries

namespace Pipeline

/-- The requests that were sent, the first one first. -/
def requestsIn (history : List Transition) : List (List Pending) :=
  history.flatMap fun t => Effect.requests t.effects

/-- The numbers of the records in all requests. -/
def sent (history : List Transition) : List Nat :=
  (requestsIn history).flatten.map Pending.serial

/-- The request that was sent last; no records before there is one. -/
def lastRequest (history : List Transition) : List Pending :=
  (requestsIn history).getLast?.getD []

theorem requestsIn_append (earlier later : List Transition) :
    requestsIn (earlier ++ later) = requestsIn earlier ++ requestsIn later :=
  List.flatMap_append

theorem sent_append (earlier later : List Transition) :
    sent (earlier ++ later) = sent earlier ++ sent later := by
  rw [sent, requestsIn_append, List.flatten_append, List.map_append]
  rfl

theorem requestsIn_singleton (t : Transition) : requestsIn [t] = Effect.requests t.effects := by
  rw [requestsIn, List.flatMap_cons, List.flatMap_nil, List.append_nil]

theorem mem_sent_iff {history : List Transition} {k : Nat} :
    k ∈ sent history ↔ ∃ batch ∈ requestsIn history, k ∈ batch.map Pending.serial := by
  rw [sent, List.map_flatten, List.mem_flatten]
  simp only [List.mem_map, exists_exists_and_eq_and]

theorem mem_sent_singleton {t : Transition} {k : Nat} :
    k ∈ sent [t] ↔ ∃ batch ∈ Effect.requests t.effects, k ∈ batch.map Pending.serial := by
  rw [mem_sent_iff, requestsIn_singleton]

theorem mem_sent_of_mem_lastRequest {history : List Transition} {k : Nat}
    (h : k ∈ (lastRequest history).map Pending.serial) : k ∈ sent history := by
  obtain ⟨r, hr, rfl⟩ := List.mem_map.1 h
  rw [lastRequest] at hr
  cases hlast : (requestsIn history).getLast? with
  | none =>
      rw [hlast] at hr
      exact absurd hr List.not_mem_nil
  | some batch =>
      rw [hlast] at hr
      exact List.mem_map_of_mem
        (List.mem_flatten.2 ⟨batch, List.mem_of_getLast? hlast, hr⟩)

/-- The records that were sent and are not done with. -/
def carried (p : Pipeline) : List Pending := p.retries.items ++ p.inFlight

/-- The records that are not done with, in the order in which they were accepted. -/
def lineup (p : Pipeline) : List Pending := p.carried ++ p.queue

theorem atPlaces_sublist {α : Type} (places : List Nat) (l : List α) :
    (atPlaces places l).Sublist l := by
  have h := (List.filter_sublist (l := l.zipIdx) (p := fun e => places.contains e.2)).map Prod.fst
  rwa [List.zipIdx_map_fst] at h

theorem returned_sublist (r : Reply) (batch : List Pending) : (r.returned batch).Sublist batch := by
  cases r with
  | outcome o =>
      cases o with
      | success => exact List.nil_sublist batch
      | rejected places reason => exact atPlaces_sublist places batch
      | failure status message =>
          rw [Reply.returned]
          split
          · exact List.Sublist.refl batch
          · exact List.nil_sublist batch
  | fault e => exact List.Sublist.refl batch
  | breakdown => exact List.nil_sublist batch

theorem serial_kept_sublist (p : Pipeline) (records : List Pending) :
    ((p.kept records).map Pending.serial).Sublist (records.map Pending.serial) := by
  have h := (List.filter_sublist (l := records.map Pending.failed)
    (p := fun r => decide (r.attempts ≤ p.policy.maxRetries))).map Pending.serial
  rwa [List.map_map] at h

/-- What comes back of a request stands behind what waits already, in the order in which it was
sent. -/
theorem carried_receive (p : Pipeline) {batch : List Pending} {phase : Phase}
    (hstage : p.stage = .sending batch phase) (r : Reply) :
    ((p.receive batch phase r).1.carried.map Pending.serial).Sublist
      (p.carried.map Pending.serial) := by
  have hback : ((p.kept (r.returned batch)).map Pending.serial).Sublist
      (batch.map Pending.serial) :=
    (serial_kept_sublist p _).trans ((returned_sublist r batch).map _)
  have hkept : (p.retries.offer (p.kept (r.returned batch))).1.items.Sublist
      (p.retries.items ++ p.kept (r.returned batch)) := by
    rw [← RetryBuffer.offer_items]
    exact List.sublist_append_right _ _
  rw [carried, carried, inFlight_receive, receive_fst, items_retriesBehind,
    inFlight_of_stage hstage, List.append_nil, List.map_append]
  refine (hkept.map Pending.serial).trans ?_
  rw [List.map_append]
  exact hback.append_left _

/-- What a step does to the line of records: it is shortened and gets at most one record at its end,
or the front of it is sent. -/
theorem motion_lineup {p q : Pipeline} {a : Action} {effects : List Effect}
    (h : Motion p a q effects) :
    (Effect.requests effects = [] ∧
        (q.carried.map Pending.serial).Sublist (p.carried.map Pending.serial) ∧
        q.queue <:+ p.queue ++ (p.admitted a).map fun item => ⟨p.accepted, item, 0⟩) ∨
      ∃ n, Effect.requests effects = [q.carried] ∧ q.carried = p.carried ++ p.queue.take n ∧
        q.queue = p.queue.drop n ∧ p.admitted a = [] := by
  cases h with
  | @accept s item hitem =>
      have hqueue : (p.enqueue item).1.queue <:+ p.queue ++ [⟨p.accepted, item, 0⟩] :=
        ⟨p.overflow, overflow_append_queue_enqueue p item⟩
      refine Or.inl ⟨?_, List.Sublist.refl _, by simpa [admitted, hitem] using hqueue⟩
      rw [enqueue_snd]
      split <;> simp [tell]
  | quiet _ _ hqueue hretries hflight _ hidle =>
      refine Or.inl ⟨rfl, ?_, ?_⟩
      · rw [carried, hretries, hflight]
        exact List.Sublist.refl _
      · simp [hqueue, admitted_of_idle hidle]
  | @request n queued jitter phase _ hflight _ _ =>
      refine Or.inr ⟨n, rfl, ?_, rfl, rfl⟩
      rw [carried, carried, hflight, List.append_nil]
      rfl
  | discard hstage =>
      exact Or.inl ⟨rfl, List.nil_sublist _, by simp [admitted, withoutRetries, inStage]⟩
  | answer hstage =>
      refine Or.inl ⟨requests_receive p _ _ _, carried_receive p hstage _, ?_⟩
      simp [receive_fst, admitted]

/-- The numbers of the line behind a step come from the line in front of it and from what has just
been accepted, in this order. -/
theorem serial_lineup_sublist {p q : Pipeline} {a : Action} {effects : List Effect}
    (h : Motion p a q effects) :
    (q.lineup.map Pending.serial).Sublist
      (p.lineup.map Pending.serial ++ List.range' p.accepted (p.admitted a).length) := by
  have hnew : (p.admitted a).map (fun item => (⟨p.accepted, item, 0⟩ : Pending).serial) =
      List.range' p.accepted (p.admitted a).length := by
    rcases admitted_eq_nil_or_singleton p a with ha | ⟨item, ha⟩ <;> rw [ha] <;> rfl
  rcases motion_lineup h with ⟨-, hcarried, hqueue⟩ | ⟨n, -, hcarried, hqueue, -⟩
  · have hsub := hqueue.sublist.map Pending.serial
    rw [List.map_append, List.map_map, Function.comp_def, hnew] at hsub
    simp only [lineup, List.map_append, List.append_assoc]
    exact hcarried.append hsub
  · rw [lineup, hcarried, hqueue, List.append_assoc, List.take_append_drop]
    exact List.sublist_append_left _ _

section Runs

variable {options : WriteOptions} {policy : BatchOptions} {history : List Transition}
  {p : Pipeline}

theorem serial_lineup_sublist_range (run : Run options policy history p) :
    (p.lineup.map Pending.serial).Sublist (List.range p.accepted) := by
  induction run with
  | start => exact List.nil_sublist _
  | @step history p q effects action _ hstep ih =>
      have hmotion := step_motion hstep
      have hrange : List.range q.accepted =
          List.range p.accepted ++ List.range' p.accepted (p.admitted action).length := by
        rw [accepted_of_motion hmotion, List.range_eq_range', List.range_eq_range',
          ← List.range'_append_1, Nat.zero_add]
      rw [hrange]
      exact (serial_lineup_sublist hmotion).trans (ih.append_right _)

theorem lineup_increasing (run : Run options policy history p) :
    p.lineup.Pairwise fun r s => r.serial < s.serial :=
  List.pairwise_map.1 (List.pairwise_lt_range.sublist (serial_lineup_sublist_range run))

theorem serial_lt_accepted (run : Run options policy history p) {r : Pending}
    (hr : r ∈ p.lineup) : r.serial < p.accepted :=
  List.mem_range.1 ((serial_lineup_sublist_range run).subset (List.mem_map_of_mem hr))

/-- How the line of records and the requests of a history belong together. -/
structure Traced (history : List Transition) (p : Pipeline) : Prop where
  /-- What is not done with and not in the queue was in the last request. -/
  latest : ∀ r ∈ p.carried, r.serial ∈ (lastRequest history).map Pending.serial
  /-- The queue was accepted behind everything that was sent. -/
  fresh : ∀ k ∈ sent history, ∀ r ∈ p.queue, k < r.serial
  old : ∀ k ∈ sent history, k < p.accepted

namespace Traced

variable {q : Pipeline} {a : Action} {effects : List Effect}

/-- Without a request the line is only shortened, and one record may be accepted at its end. -/
theorem of_silent (h : Traced history p) (hnone : Effect.requests effects = [])
    (hcarried : (q.carried.map Pending.serial).Sublist (p.carried.map Pending.serial))
    (hqueue : q.queue <:+ p.queue ++ (p.admitted a).map fun item => ⟨p.accepted, item, 0⟩)
    (haccepted : p.accepted ≤ q.accepted) : Traced (history ++ [⟨p, a, q, effects⟩]) q := by
  have hrequests : requestsIn (history ++ [⟨p, a, q, effects⟩]) = requestsIn history := by
    rw [requestsIn_append, requestsIn_singleton, hnone, List.append_nil]
  have hsent : sent (history ++ [⟨p, a, q, effects⟩]) = sent history := by
    rw [sent, hrequests, sent]
  refine ⟨fun r hr => ?_, fun k hk r hr => ?_, fun k hk => ?_⟩
  · obtain ⟨s, hs, hserial⟩ := List.mem_map.1 (hcarried.subset (List.mem_map_of_mem hr))
    rw [lastRequest, hrequests, ← hserial]
    exact h.latest s hs
  · rw [hsent] at hk
    rcases List.mem_append.1 (hqueue.subset hr) with hr | hr
    · exact h.fresh k hk r hr
    · obtain ⟨item, -, rfl⟩ := List.mem_map.1 hr
      exact h.old k hk
  · rw [hsent] at hk
    exact Nat.lt_of_lt_of_le (h.old k hk) haccepted

/-- A request takes the front of the line. -/
theorem of_request (h : Traced history p) (run : Run options policy history p) {n : Nat}
    (hrequest : Effect.requests effects = [q.carried])
    (hcarried : q.carried = p.carried ++ p.queue.take n) (hqueue : q.queue = p.queue.drop n)
    (haccepted : q.accepted = p.accepted) : Traced (history ++ [⟨p, a, q, effects⟩]) q := by
  have hline : q.carried ++ q.queue = p.lineup := by
    rw [hcarried, hqueue, List.append_assoc, List.take_append_drop, lineup]
  have hsent : ∀ k ∈ sent (history ++ [⟨p, a, q, effects⟩]),
      k ∈ sent history ∨ k ∈ q.carried.map Pending.serial := by
    intro k hk
    rw [sent_append, List.mem_append, mem_sent_singleton, hrequest] at hk
    simpa only [List.mem_singleton, exists_eq_left] using hk
  have hincreasing := lineup_increasing run
  rw [← hline] at hincreasing
  refine ⟨fun r hr => ?_, fun k hk r hr => ?_, fun k hk => ?_⟩
  · rw [lastRequest, requestsIn_append, requestsIn_singleton, hrequest, List.getLast?_concat]
    exact List.mem_map_of_mem hr
  · rcases hsent k hk with hk | hk
    · exact h.fresh k hk r (List.mem_of_mem_drop (hqueue ▸ hr))
    · obtain ⟨s, hs, rfl⟩ := List.mem_map.1 hk
      exact (List.pairwise_append.1 hincreasing).2.2 s hs r hr
  · rw [haccepted]
    rcases hsent k hk with hk | hk
    · exact h.old k hk
    · obtain ⟨s, hs, rfl⟩ := List.mem_map.1 hk
      exact serial_lt_accepted run (hline ▸ List.mem_append_left _ hs)

end Traced

theorem traced_of_run (run : Run options policy history p) : Traced history p := by
  induction run with
  | start => exact ⟨by simp [carried, start, RetryBuffer.empty, inFlight], nofun, nofun⟩
  | @step history p q effects action run hstep ih =>
      have haccepted := accepted_of_motion (step_motion hstep)
      rcases motion_lineup (step_motion hstep) with
        ⟨hnone, hcarried, hqueue⟩ | ⟨n, hrequest, hcarried, hqueue, hadmitted⟩
      · exact ih.of_silent hnone hcarried hqueue (haccepted ▸ Nat.le_add_right _ _)
      · rw [hadmitted, List.length_nil, Nat.add_zero] at haccepted
        exact ih.of_request run hrequest hcarried hqueue haccepted

/-- A request is what is carried behind it: what is sent again, and then the front of the queue. -/
theorem request_of_mem_requests {t : Transition} {batch : List Pending}
    (hstep : t.before.step t.action = some (t.after, t.effects))
    (hbatch : batch ∈ Effect.requests t.effects) :
    batch = t.after.carried ∧
      ∃ n, batch = t.before.carried ++ t.before.queue.take n := by
  rcases motion_lineup (step_motion hstep) with ⟨hnone, -, -⟩ | ⟨n, hrequest, hcarried, -, -⟩
  · rw [hnone] at hbatch
    exact absurd hbatch List.not_mem_nil
  · rw [hrequest, List.mem_singleton] at hbatch
    exact ⟨hbatch, n, hbatch.trans hcarried⟩

theorem request_increasing {t : Transition} (run : Run options policy (history ++ [t]) p)
    {batch : List Pending} (hbatch : batch ∈ Effect.requests t.effects) :
    batch.Pairwise fun r s => r.serial < s.serial := by
  obtain ⟨-, hstep, rfl⟩ := run_concat_iff.1 run
  rw [(request_of_mem_requests hstep hbatch).1]
  exact (List.pairwise_append.1 (lineup_increasing run)).1

/-- A request consists of records that were sent before and records that were not. -/
theorem resent_append_fresh {t : Transition} (run : Run options policy (history ++ [t]) p)
    {batch : List Pending} (hbatch : batch ∈ Effect.requests t.effects) :
    ∃ resent fresh, batch = resent ++ fresh ∧ (∀ r ∈ resent, r.serial ∈ sent history) ∧
      ∀ r ∈ fresh, r.serial ∉ sent history := by
  obtain ⟨hbefore, hstep, -⟩ := run_concat_iff.1 run
  obtain ⟨-, n, hn⟩ := request_of_mem_requests hstep hbatch
  have htraced := traced_of_run hbefore
  refine ⟨_, _, hn, fun r hr => mem_sent_of_mem_lastRequest (htraced.latest r hr), ?_⟩
  intro r hr hsent
  exact Nat.lt_irrefl _ (htraced.fresh _ hsent r (List.mem_of_mem_take hr))

/-- A record that was sent was sent for the first time in one of the requests. -/
theorem exists_first_request {k : Nat} (h : k ∈ sent history) :
    ∃ earlier t later, history = earlier ++ t :: later ∧ k ∉ sent earlier ∧
      ∃ batch ∈ Effect.requests t.effects, k ∈ batch.map Pending.serial := by
  induction history using List.reverseRecOn with
  | nil => exact absurd h List.not_mem_nil
  | append_singleton history t ih =>
      by_cases hk : k ∈ sent history
      · obtain ⟨earlier, u, later, rfl, hfirst, hrequest⟩ := ih hk
        exact ⟨earlier, u, later ++ [t], by simp, hfirst, hrequest⟩
      · rw [sent_append, List.mem_append] at h
        exact ⟨history, t, [], rfl, hk, mem_sent_singleton.1 (h.resolve_left hk)⟩

theorem idxOf_lt_of_increasing {l : List Nat} (hl : l.Pairwise (· < ·)) {x y : Nat} (hx : x ∈ l)
    (hy : y ∈ l) (hxy : x < y) : l.idxOf x < l.idxOf y := by
  induction l with
  | nil => cases hx
  | cons a l ih =>
      obtain ⟨hhead, htail⟩ := List.pairwise_cons.1 hl
      rcases List.mem_cons.1 hy with rfl | hy
      · rcases List.mem_cons.1 hx with rfl | hx
        · exact absurd hxy (Nat.lt_irrefl x)
        · exact absurd hxy (Nat.lt_asymm (hhead x hx))
      · have hay : a ≠ y := Nat.ne_of_lt (hhead y hy)
        rcases List.mem_cons.1 hx with rfl | hx
        · rw [List.idxOf_cons_self, List.idxOf_cons_ne l hay]
          exact Nat.succ_pos _
        · rw [List.idxOf_cons_ne l (Nat.ne_of_lt (hhead x hx)), List.idxOf_cons_ne l hay]
          exact Nat.succ_lt_succ (ih htail hx hy)

/-- When a record is sent for the first time, no record that was accepted later has been sent. -/
theorem first_request_in_order {x y : Nat} (run : Run options policy history p) (hxy : x < y)
    (hx : x ∈ sent history) :
    ∃ earlier t later, history = earlier ++ t :: later ∧ x ∉ sent earlier ∧ y ∉ sent earlier ∧
      ∃ batch ∈ Effect.requests t.effects, x ∈ batch.map Pending.serial ∧
        (y ∈ batch.map Pending.serial →
          (batch.map Pending.serial).idxOf x < (batch.map Pending.serial).idxOf y) := by
  obtain ⟨earlier, t, later, rfl, hfirst, batch, hbatch, hmem⟩ := exists_first_request hx
  obtain ⟨hbefore, hstep⟩ := run_of_append_cons run
  have hincreasing : (batch.map Pending.serial).Pairwise (· < ·) :=
    List.pairwise_map.2 (request_increasing (hbefore.step t.action hstep) hbatch)
  refine ⟨earlier, t, later, rfl, hfirst, fun hy => ?_, batch, hbatch, hmem,
    fun hy => idxOf_lt_of_increasing hincreasing hmem hy hxy⟩
  -- what has not been sent is in the queue, and that was accepted behind all that was sent
  obtain ⟨-, n, hn⟩ := request_of_mem_requests hstep hbatch
  have htraced := traced_of_run hbefore
  rw [hn, List.map_append, List.mem_append] at hmem
  rcases hmem with hmem | hmem
  · obtain ⟨r, hr, rfl⟩ := List.mem_map.1 hmem
    exact hfirst (mem_sent_of_mem_lastRequest (htraced.latest r hr))
  · obtain ⟨r, hr, rfl⟩ := List.mem_map.1 hmem
    exact Nat.lt_asymm hxy (htraced.fresh y hy r (List.mem_of_mem_take hr))

theorem getElem?_intake_of_mem_request {earlier later : List Transition} {t : Transition}
    (run : Run options policy (earlier ++ t :: later) p) {batch : List Pending}
    (hbatch : batch ∈ Effect.requests t.effects) {r : Pending} (hr : r ∈ batch) :
    (intake (earlier ++ t :: later))[r.serial]? = some r.item := by
  obtain ⟨hbefore, hstep⟩ := run_of_append_cons run
  have hflight : r ∈ recordsAt (earlier ++ [t]) t.after .flight := by
    rw [recordsAt, inFlight_of_mem_requests (step_motion hstep) hbatch]
    exact hr
  have hget := getElem?_intake_of_mem (hbefore.step t.action hstep) hflight
  have hsplit : intake (earlier ++ t :: later) = intake (earlier ++ [t]) ++ intake later := by
    simp [intake]
  rw [hsplit, List.getElem?_append_left (List.getElem?_eq_some_iff.1 hget).1, hget]

/-- Requests keep the order of acceptance, which the numbers of records count. The records of a
request stand in it in this order; what waits for another attempt was accepted before all that is
queued; a request begins with the records that were sent before and goes on with those that were
not; and no record is sent for the first time behind one that was accepted later. -/
theorem requests_keep_acceptance_order (run : Run options policy history p) :
    (∀ t ∈ history, ∀ batch ∈ Effect.requests t.effects,
        batch.Pairwise (fun r s => r.serial < s.serial) ∧
          ∀ r ∈ batch, (intake history)[r.serial]? = some r.item) ∧
      (∀ r ∈ p.retries.items, ∀ s ∈ p.queue, r.serial < s.serial) ∧
      (∀ earlier t later, history = earlier ++ t :: later →
        ∀ batch ∈ Effect.requests t.effects,
          ∃ resent fresh, batch = resent ++ fresh ∧ (∀ r ∈ resent, r.serial ∈ sent earlier) ∧
            ∀ r ∈ fresh, r.serial ∉ sent earlier) ∧
      ∀ x y, x < y → x ∈ sent history → y ∈ sent history →
        ∃ earlier t later, history = earlier ++ t :: later ∧ x ∉ sent earlier ∧ y ∉ sent earlier ∧
          ∃ batch ∈ Effect.requests t.effects, x ∈ batch.map Pending.serial ∧
            (y ∈ batch.map Pending.serial →
              (batch.map Pending.serial).idxOf x < (batch.map Pending.serial).idxOf y) := by
  refine ⟨fun t ht batch hbatch => ?_, fun r hr s hs => ?_, ?_,
    fun x y hxy hx _ => first_request_in_order run hxy hx⟩
  · obtain ⟨earlier, later, rfl⟩ := List.append_of_mem ht
    obtain ⟨hbefore, hstep⟩ := run_of_append_cons run
    exact ⟨request_increasing (hbefore.step t.action hstep) hbatch,
      fun r hr => getElem?_intake_of_mem_request run hbatch hr⟩
  · exact (List.pairwise_append.1 (lineup_increasing run)).2.2 r (List.mem_append_left _ hr) s hs
  · rintro earlier t later rfl batch hbatch
    obtain ⟨hbefore, hstep⟩ := run_of_append_cons run
    exact resent_append_fresh (hbefore.step t.action hstep) hbatch

/-- Of two records one is rejected, and it is sent again in front of the third one. -/
theorem requests_keep_acceptance_order_of_partial_write :
    ∃ history p,
      Run ⟨"db", none, .one, .nanoseconds, by decide, by decide⟩
          ⟨2, 1000, 0, 3, 2, 5, by decide, by decide, by decide⟩ history p ∧
        (requestsIn history).map (fun batch => batch.map Pending.serial) = [[0, 1], [1, 2, 3]] ∧
        ∀ x y, x < y → x ∈ sent history → y ∈ sent history →
          ∃ earlier t later,
            history = earlier ++ t :: later ∧ x ∉ sent earlier ∧ y ∉ sent earlier ∧
              ∃ batch ∈ Effect.requests t.effects, x ∈ batch.map Pending.serial ∧
                (y ∈ batch.map Pending.serial →
                  (batch.map Pending.serial).idxOf x < (batch.map Pending.serial).idxOf y) := by
  have run := @run_of_trace? ⟨"db", none, .one, .nanoseconds, by decide, by decide⟩
    ⟨2, 1000, 0, 3, 2, 5, by decide, by decide, by decide⟩ _ _
    [.submit (.record "a f=1i"), .submit (.record "b f=2i"), .work 0, .work 0, .work 0, .work 0,
      .submit (.record "c f=3i"), .submit (.record "d f=4i"),
      .reply (.outcome (.rejected [1] "no")), .work 0, .work 0, .work 0, .work 0] rfl
  exact ⟨_, _, run, rfl, (requests_keep_acceptance_order run).2.2.2⟩

end Runs

end Pipeline

end TimeSeries
