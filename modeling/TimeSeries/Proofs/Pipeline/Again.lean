import Mathlib.Data.List.Perm.Subperm
import TimeSeries.Proofs.Pipeline.Capacity
import TimeSeries.Proofs.Pipeline.LastAttempt
import TimeSeries.Proofs.Pipeline.RetryBuffer

/-!
# What is tried again

Records that come back from a request go to the retry buffer, except for those that failed too often
and those that the buffer has no room for. Listeners are told of the failure before that is known:
`Spared` says of records that no exception applies to them, and so what an event says of the future
of its records is right exactly for records that are spared.

What waits goes with the next request as a whole (`next_request_of_run`). Only what comes back from
the last request of all does not go anywhere.
-/

namespace TimeSeries

/-- A stage in which records can wait for a request that is still to come. -/
def Stage.Expects : Stage → Prop
  | .sending _ _ | .discarding | .done | .dead => False
  | _ => True

namespace Pipeline

/-- None of the records failed too often, and all of them find room in the retry buffer. -/
structure Spared (policy : BatchOptions) (records : List Pending) : Prop where
  attempts : ∀ r ∈ records, r.failed.attempts ≤ policy.maxRetries
  length_le : records.length ≤ policy.retryLimit

theorem sending_of_reply {p q : Pipeline} {r : Reply} {effects : List Effect}
    (h : Turn p (.reply r) q effects) :
    ∃ phase, p.stage = .sending p.inFlight phase ∧ q = (p.receive p.inFlight phase r).1 := by
  cases h with
  | @answer batch phase r hstage =>
      rw [inFlight_of_stage hstage]
      exact ⟨phase, hstage, rfl⟩

theorem kept_eq_iff {p : Pipeline} {records : List Pending} :
    p.kept records = records.map Pending.failed ↔
      ∀ r ∈ records, r.failed.attempts ≤ p.policy.maxRetries := by
  rw [kept, List.filter_eq_self, List.forall_mem_map]
  simp only [decide_eq_true_iff]

theorem length_kept_le (p : Pipeline) (records : List Pending) :
    (p.kept records).length ≤ records.length := by
  simpa [kept] using List.length_filter_le (fun r => decide (r.attempts ≤ p.policy.maxRetries))
    (records.map Pending.failed)

/-- All records are among the last ones that may be tried again and find room exactly if they are
spared. -/
theorem forall_mem_drop_kept_iff {p : Pipeline} {records : List Pending}
    (hnodup : (records.map Pending.serial).Nodup) :
    (∀ r ∈ records, r.serial ∈
        ((p.kept records).drop ((p.kept records).length - p.policy.retryLimit)).map
          Pending.serial) ↔ Spared p.policy records := by
  constructor
  · intro h
    have hsubset : records.map Pending.serial ⊆
        ((p.kept records).drop ((p.kept records).length - p.policy.retryLimit)).map
          Pending.serial := by
      intro k hk
      obtain ⟨r, hr, rfl⟩ := List.mem_map.1 hk
      exact h r hr
    have hlength := (List.subperm_of_subset hnodup hsubset).length_le
    have hkept := length_kept_le p records
    simp only [List.length_map, List.length_drop] at hlength
    have hall : (p.kept records).length = (records.map Pending.failed).length := by
      rw [List.length_map]
      omega
    exact ⟨kept_eq_iff.1 (List.filter_sublist.eq_of_length hall), by omega⟩
  · intro h r hr
    have hkept := kept_eq_iff.2 h.attempts
    have hroom : (records.map Pending.failed).length - p.policy.retryLimit = 0 := by
      rw [List.length_map]
      exact Nat.sub_eq_zero_of_le h.length_le
    rw [hkept, hroom, List.drop_zero, List.map_map]
    exact List.mem_map_of_mem hr

/-- A step leaves what waits where it is, or sends a request that begins with it. -/
theorem expects_of_turn {p q : Pipeline} {a : Action} {effects : List Effect}
    (h : Turn p a q effects) (hstage : p.stage.Expects) (hsome : p.retries.items ≠ []) :
    (Effect.requests effects = [] ∧ q.retries.items = p.retries.items ∧ q.stage.Expects) ∨
      ∃ batch, Effect.requests effects = [batch] ∧ p.retries.items <+: batch := by
  cases h with
  | accept _ =>
      refine .inl ⟨?_, rfl, hstage⟩
      rw [enqueue_snd]
      split <;> rfl
  | flush _ _ => exact .inr ⟨_, rfl, List.prefix_append _ _⟩
  | drain _ _ => exact .inr ⟨_, rfl, List.prefix_append _ _⟩
  | retry _ _ => exact .inr ⟨_, rfl, List.prefix_append _ _⟩
  | skip _ hnone _ => exact absurd hnone hsome
  | pass _ hnone => exact absurd hnone hsome
  | discard hdiscarding =>
      rw [hdiscarding] at hstage
      exact hstage.elim
  | answer hsending =>
      rw [hsending] at hstage
      exact hstage.elim
  | refuse _ => exact .inl ⟨rfl, rfl, hstage⟩
  | beginClose => exact .inl ⟨rfl, rfl, hstage⟩
  | finishClose _ => exact .inl ⟨rfl, rfl, hstage⟩
  | elapse => exact .inl ⟨rfl, rfl, hstage⟩
  -- the other steps of the task only change its stage
  | _ => exact .inl ⟨rfl, rfl, trivial⟩

/-- What comes back of a request waits for another attempt, or leaves the pipeline for good. -/
theorem waits_or_departs {p q : Pipeline} {r : Reply} {effects : List Effect}
    (h : Turn p (.reply r) q effects) {x : Pending} (hx : x ∈ r.returned p.inFlight) :
    x.serial ∈ q.retries.items.map Pending.serial ∨
      ∃ fate, ∃ y ∈ p.departing (.reply r) fate, y.serial = x.serial := by
  obtain ⟨phase, -, rfl⟩ := sending_of_reply h
  have hfailed : x.failed ∈ (r.returned p.inFlight).map Pending.failed := List.mem_map_of_mem hx
  by_cases hattempts : x.failed.attempts ≤ p.policy.maxRetries
  · have hkept : x.failed ∈ p.kept (r.returned p.inFlight) :=
      List.mem_filter.2 ⟨hfailed, decide_eq_true hattempts⟩
    have hoffered := List.mem_append_right p.retries.items hkept
    rw [← RetryBuffer.offer_items] at hoffered
    rcases List.mem_append.1 hoffered with hevicted | hwaits
    · exact .inr ⟨.evicted, _, hevicted, rfl⟩
    · rw [receive_fst, items_retriesBehind]
      exact .inl (List.mem_map.2 ⟨x.failed, hwaits, rfl⟩)
  · have hexpired : x.failed ∈ p.expired (r.returned p.inFlight) :=
      List.mem_filter.2 ⟨hfailed, decide_eq_true (UInt32.not_le.1 hattempts)⟩
    exact .inr ⟨.expired, _, hexpired, rfl⟩

/-- Behind a reply that returns records they wait for the next request, unless the request was the
last one. -/
theorem stage_of_reply {p q : Pipeline} {r : Reply} {effects : List Effect}
    (h : Turn p (.reply r) q effects) (hsome : r.returned p.inFlight ≠ []) :
    q.stage.Expects ∧ (∀ batch, p.stage ≠ .sending batch .final) ∨
      q.stage = .discarding ∧ ∃ batch, p.stage = .sending batch .final := by
  obtain ⟨phase, hstage, rfl⟩ := sending_of_reply h
  have hnext : r.next phase = phase.next := by
    cases r with
    | breakdown => exact absurd rfl hsome
    | outcome o => rfl
    | fault e => rfl
  rw [receive_fst, hnext]
  cases phase with
  | batching => exact .inl ⟨trivial, by simp [hstage]⟩
  | draining => exact .inl ⟨trivial, by simp [hstage]⟩
  | final => exact .inr ⟨rfl, _, hstage⟩

theorem failed_of_mem_report {options : WriteOptions} {batch : List Pending} {r : Reply}
    {e : WriteEvent} (h : e ∈ report options (batch, r)) {status : Option Nat} {message : String}
    {retryable : Bool} (hdetail : e.detail = .failed status message retryable) :
    r = .outcome (.failure status message) ∧ e.items = batch.map Pending.item ∧
      retryable = Outcome.statusRetryable status := by
  cases r with
  | outcome o =>
      rcases List.mem_pair.1 h with rfl | rfl
      · cases hdetail
      · cases o with
        | success => cases hdetail
        | rejected places reason =>
            rw [verdict] at hdetail
            split at hdetail <;> cases hdetail
        | failure status message =>
            cases hdetail
            exact ⟨rfl, rfl, (Outcome.statusRetryable_eq_decide _).symm⟩
  | fault e =>
      obtain rfl := List.mem_singleton.1 h
      cases hdetail
  | breakdown => cases h

theorem rejected_of_mem_report {options : WriteOptions} {batch : List Pending} {r : Reply}
    {e : WriteEvent} (h : e ∈ report options (batch, r)) {reason : String}
    (hdetail : e.detail = .rejected reason) :
    ∃ places, r = .outcome (.rejected places reason) ∧ r.returned batch ≠ [] ∧
      e.items = (r.returned batch).map Pending.item := by
  cases r with
  | outcome o =>
      rcases List.mem_pair.1 h with rfl | rfl
      · cases hdetail
      · cases o with
        | success => cases hdetail
        | rejected places reason =>
            rw [verdict] at hdetail ⊢
            by_cases hnone : ∀ i ∈ places, batch.length ≤ i
            · rw [if_pos hnone] at hdetail
              cases hdetail
            · rw [if_neg hnone] at hdetail ⊢
              cases hdetail
              exact ⟨places, rfl, mt atPlaces_eq_nil_iff.1 hnone, rfl⟩
        | failure status message => cases hdetail
  | fault e =>
      obtain rfl := List.mem_singleton.1 h
      cases hdetail
  | breakdown => cases h

section Runs

variable {options : WriteOptions} {policy : BatchOptions} {history earlier later : List Transition}
  {t : Transition} {p : Pipeline}

theorem nodup_serial_inFlight (run : Run options policy history p) :
    (p.inFlight.map Pending.serial).Nodup := by
  have hcarried := (List.pairwise_append.1 (lineup_increasing run)).1
  have hflight := (List.pairwise_append.1 hcarried).2.1
  exact List.pairwise_map.2 (hflight.imp Nat.ne_of_lt)

/-- While a request is on its way nothing else waits, so behind the reply the retry buffer holds the
last records of those that came back and may be tried again. -/
theorem retries_of_reply (run : Run options policy history p) {q : Pipeline} {r : Reply}
    {effects : List Effect} (h : Turn p (.reply r) q effects) :
    q.retries.items =
      (p.kept (r.returned p.inFlight)).drop
        ((p.kept (r.returned p.inFlight)).length - p.policy.retryLimit) := by
  obtain ⟨phase, hstage, rfl⟩ := sending_of_reply h
  have hnone := retries_eq_nil_of_run run (by rw [hstage]; trivial)
  have hsized := sized_of_run run
  rw [receive_fst, items_retriesBehind, RetryBuffer.items_offer hsized.retries.length_le, hnone,
    List.nil_append, List.length_nil, Nat.zero_add, hsized.capacity]

/-- All records that come back wait for another attempt exactly if they are spared. -/
theorem forall_waits_iff (run : Run options policy history p) {q : Pipeline} {r : Reply}
    {effects : List Effect} (h : Turn p (.reply r) q effects) :
    (∀ x ∈ r.returned p.inFlight, x.serial ∈ q.retries.items.map Pending.serial) ↔
      Spared policy (r.returned p.inFlight) := by
  have hnodup := (nodup_serial_inFlight run).sublist ((returned_sublist r p.inFlight).map _)
  rw [retries_of_reply run h, forall_mem_drop_kept_iff hnodup, policy_of_run run]

/-- What waits still waits, or the first request that was sent since begins with it. -/
theorem next_request_of_run (run : Run options policy (earlier ++ t :: later) p)
    (hstage : t.after.stage.Expects) (hsome : t.after.retries.items ≠ []) :
    (requestsIn later = [] ∧ p.retries.items = t.after.retries.items ∧ p.stage.Expects) ∨
      ∃ batch rest, requestsIn later = batch :: rest ∧ t.after.retries.items <+: batch := by
  induction later using List.reverseRecOn generalizing p with
  | nil =>
      obtain ⟨-, -, rfl⟩ := run_concat_iff.1 run
      exact .inl ⟨rfl, rfl, hstage⟩
  | append_singleton later u ih =>
      rw [show earlier ++ t :: (later ++ [u]) = (earlier ++ t :: later) ++ [u] by simp] at run
      obtain ⟨hbefore, hstep, rfl⟩ := run_concat_iff.1 run
      rw [requestsIn_append, requestsIn_singleton]
      rcases ih hbefore with ⟨hnone, hsame, hexpects⟩ | ⟨batch, rest, hfirst, hbegin⟩
      · rw [hnone, ← hsame]
        rcases expects_of_turn (step_turn hstep) hexpects (hsame ▸ hsome) with
          hwaits | ⟨batch, hbatch, hbegin⟩
        · exact .inl hwaits
        · exact .inr ⟨batch, [], hbatch, hbegin⟩
      · exact .inr ⟨batch, rest ++ Effect.requests u.effects, by rw [hfirst]; rfl, hbegin⟩

/-- What is about to be given up is not sent any more. -/
theorem requestsIn_eq_nil_of_discarding (run : Run options policy (earlier ++ t :: later) p)
    (hstage : t.after.stage = .discarding) : requestsIn later = [] := by
  obtain ⟨hbefore, hstep⟩ := run_of_append_cons run
  have hclosed := ((onCourse_of_run (hbefore.step t.action hstep)).asks hstage).1
  have hrequests := (requests_append_ahead run hclosed).2
  rw [ahead_of_stage (p := t.after) (by rw [hstage]; decide)] at hrequests
  exact (List.append_eq_nil_iff.1 hrequests).1

theorem retries_ne_nil_of_spared (run : Run options policy history p) {q : Pipeline} {r : Reply}
    {effects : List Effect} (h : Turn p (.reply r) q effects) (hsome : r.returned p.inFlight ≠ [])
    (hspared : Spared policy (r.returned p.inFlight)) : q.retries.items ≠ [] := by
  intro hnone
  obtain ⟨x, hx⟩ := List.exists_mem_of_ne_nil _ hsome
  have hwaits := (forall_waits_iff run h).2 hspared x hx
  rw [hnone] at hwaits
  exact List.not_mem_nil hwaits

/-- All records that come back from a request are sent again exactly if they are spared and anything
is sent again. -/
theorem forall_sent_again_iff (run : Run options policy (earlier ++ t :: later) p) {r : Reply}
    (hreply : t.action = .reply r) (hsome : r.returned t.before.inFlight ≠ []) :
    (∀ x ∈ r.returned t.before.inFlight, x.serial ∈ sent later) ↔
      Spared policy (r.returned t.before.inFlight) ∧ requestsIn later ≠ [] := by
  obtain ⟨hbefore, hstep⟩ := run_of_append_cons run
  have hturn := step_turn hstep
  rw [hreply] at hturn
  have hwaits := forall_waits_iff hbefore hturn
  obtain ⟨x, hx⟩ := List.exists_mem_of_ne_nil _ hsome
  constructor
  · intro h
    refine ⟨hwaits.1 fun y hy => ?_, fun hnone => ?_⟩
    · -- What left the pipeline would not have been sent.
      rcases waits_or_departs hturn hy with hwaiting | ⟨fate, z, hz, hserial⟩
      · exact hwaiting
      · obtain ⟨batch, hbatch, hmem⟩ := mem_sent_iff.1 (h y hy)
        obtain ⟨u, hu, hbatch⟩ := List.mem_flatMap.1 hbatch
        rw [← hreply] at hz
        exact absurd (hserial ▸ hmem) (serial_not_mem_later_request run hz hu hbatch)
    · obtain ⟨batch, hbatch, -⟩ := mem_sent_iff.1 (h x hx)
      rw [hnone] at hbatch
      exact List.not_mem_nil hbatch
  · rintro ⟨hspared, hrequests⟩ y hy
    have hretries := retries_ne_nil_of_spared hbefore hturn hsome hspared
    rcases stage_of_reply hturn hsome with ⟨hexpects, -⟩ | ⟨hdiscarding, -⟩
    · rcases next_request_of_run run hexpects hretries with
        ⟨hnone, -⟩ | ⟨batch, rest, hfirst, hbegin⟩
      · exact absurd hnone hrequests
      · have hmem := (hbegin.map Pending.serial).subset (hwaits.2 hspared y hy)
        exact mem_sent_iff.2 ⟨batch, hfirst ▸ List.mem_cons_self, hmem⟩
    · exact absurd (requestsIn_eq_nil_of_discarding run hdiscarding) hrequests

/-- When the task is done, something was sent behind records that are spared unless they came back
from the last request. -/
theorem requestsIn_ne_nil_iff (run : Run options policy (earlier ++ t :: later) p) {r : Reply}
    (hreply : t.action = .reply r) (hsome : r.returned t.before.inFlight ≠ [])
    (hspared : Spared policy (r.returned t.before.inFlight)) (hdone : p.stage = .done) :
    requestsIn later ≠ [] ↔ ∀ batch, t.before.stage ≠ .sending batch .final := by
  obtain ⟨hbefore, hstep⟩ := run_of_append_cons run
  have hturn := step_turn hstep
  rw [hreply] at hturn
  have hretries := retries_ne_nil_of_spared hbefore hturn hsome hspared
  rcases stage_of_reply hturn hsome with ⟨hexpects, hother⟩ | ⟨hdiscarding, batch, hlast⟩
  · refine iff_of_true ?_ hother
    rcases next_request_of_run run hexpects hretries with
      ⟨-, -, hstill⟩ | ⟨batch, rest, hfirst, -⟩
    · rw [hdone] at hstill
      exact hstill.elim
    · rw [hfirst]
      exact List.cons_ne_nil _ _
  · exact iff_of_false (fun h => h (requestsIn_eq_nil_of_discarding run hdiscarding))
      fun h => h batch hlast

theorem batch_ne_nil (run : Run options policy history p) {batch : List Pending} {phase : Phase}
    (hstage : p.stage = .sending batch phase) : batch ≠ [] := by
  have hrequest : batch ∈ requestsIn history := by
    rw [requestsIn_eq_exchanges run, unanswered, hstage]
    exact List.mem_append_right _ List.mem_cons_self
  obtain ⟨u, hu, hbatch⟩ := List.mem_flatMap.1 hrequest
  exact ne_nil_of_mem_requests (step_motion (step_of_mem_run run hu)) hbatch

theorem reply_of_mem_events (run : Run options policy history p) (ht : t ∈ history)
    {e : WriteEvent} (he : e ∈ Effect.events t.effects) (hkind : e.detail.kind ≠ .dropped) :
    ∃ r, t.action = .reply r ∧ e ∈ report options (t.before.inFlight, r) := by
  rw [events_of_mem_run run ht] at he
  rcases List.mem_append.1 he with he | he
  · exact absurd (of_decide_eq_true (isDrop_of_mem_drops he)) hkind
  · obtain ⟨x, hx, he⟩ := List.mem_flatMap.1 he
    rw [Transition.exchange] at hx
    split at hx
    · next r hreply =>
        obtain rfl := List.mem_singleton.1 hx
        exact ⟨r, hreply, he⟩
    · cases hx

/-- That a failed request is retryable says whether its records wait behind the reply, unless it is
retryable and they are not spared. -/
theorem retryable_iff (run : Run options policy history p) {q : Pipeline} {status : Option Nat}
    {message : String} {effects : List Effect}
    (h : Turn p (.reply (.outcome (.failure status message))) q effects) :
    (Outcome.statusRetryable status = true ↔
        ∀ r ∈ p.inFlight, r.serial ∈ q.retries.items.map Pending.serial) ↔
      (Outcome.statusRetryable status = true → Spared policy p.inFlight) := by
  have hwaits := forall_waits_iff run h
  have hretries := retries_of_reply run h
  by_cases hretry : Outcome.statusRetryable status = true
  · rw [Reply.returned, if_pos hretry] at hwaits
    rw [hwaits, iff_true_left hretry, forall_prop_of_true hretry]
  · rw [Reply.returned, if_neg hretry] at hretries
    refine iff_of_true (iff_of_false hretry fun hall => ?_) fun h => absurd h hretry
    obtain ⟨phase, hstage, -⟩ := sending_of_reply h
    obtain ⟨x, hx⟩ := List.exists_mem_of_ne_nil _ (batch_ne_nil run hstage)
    have hwaiting := hall x hx
    simp [hretries, kept] at hwaiting

/-- What is told of a failure is right exactly for records that are spared. A failed request is
called retryable by its status alone, which says whether its records wait for another attempt
behind the reply unless it is retryable and they are not spared. The rejected part of a request is
sent again as a whole exactly if it is spared and there is another request; when the task is done,
there was one unless the request was the last. -/
theorem failure_is_told_right_iff (run : Run options policy history p) :
    ∀ earlier t later, history = earlier ++ t :: later → ∀ e ∈ Effect.events t.effects,
      (∀ status message retryable, e.detail = .failed status message retryable →
        e.items = t.before.inFlight.map Pending.item ∧
          retryable = Outcome.statusRetryable status ∧
          ((retryable = true ↔
              ∀ r ∈ t.before.inFlight, r.serial ∈ t.after.retries.items.map Pending.serial) ↔
            (retryable = true → Spared policy t.before.inFlight))) ∧
      (∀ reason, e.detail = .rejected reason →
        ∃ places records, t.action = .reply (.outcome (.rejected places reason)) ∧
          records = atPlaces places t.before.inFlight ∧ e.items = records.map Pending.item ∧
          ((∀ r ∈ records, r.serial ∈ sent later) ↔
            Spared policy records ∧ requestsIn later ≠ []) ∧
          (p.stage = .done →
            ((∀ r ∈ records, r.serial ∈ sent later) ↔
              Spared policy records ∧ ∀ batch, t.before.stage ≠ .sending batch .final))) := by
  rintro earlier t later rfl e he
  have ht : t ∈ earlier ++ t :: later := List.mem_append_right _ List.mem_cons_self
  obtain ⟨hbefore, hstep⟩ := run_of_append_cons run
  refine ⟨fun status message retryable hdetail => ?_, fun reason hdetail => ?_⟩
  · obtain ⟨r, hreply, hreport⟩ :=
      reply_of_mem_events run ht he (by simp [hdetail, EventDetail.kind])
    obtain ⟨rfl, hitems, rfl⟩ := failed_of_mem_report hreport hdetail
    exact ⟨hitems, rfl, retryable_iff hbefore (hreply ▸ step_turn hstep)⟩
  · obtain ⟨r, hreply, hreport⟩ :=
      reply_of_mem_events run ht he (by simp [hdetail, EventDetail.kind])
    obtain ⟨places, rfl, hsome, hitems⟩ := rejected_of_mem_report hreport hdetail
    have hsent := forall_sent_again_iff run hreply hsome
    refine ⟨places, _, hreply, rfl, hitems, hsent, fun hdone => hsent.trans ?_⟩
    exact and_congr_right fun hspared => requestsIn_ne_nil_iff run hreply hsome hspared hdone

/-- One of two records is rejected, and it is sent again in front of two others. -/
theorem failure_is_told_right_iff_of_rejection :
    ∃ earlier t later p e,
      Run ⟨"db", none, .one, .nanoseconds, by decide, by decide⟩
          ⟨2, 1000, 0, 3, 2, 5, by decide, by decide, by decide⟩ (earlier ++ t :: later) p ∧
        e ∈ Effect.events t.effects ∧ e.detail = .rejected "no" ∧
        (requestsIn later).map (fun batch => batch.map Pending.serial) = [[1, 2, 3]] ∧
        ((∀ r ∈ atPlaces [1] t.before.inFlight, r.serial ∈ sent later) ↔
          Spared ⟨2, 1000, 0, 3, 2, 5, by decide, by decide, by decide⟩
              (atPlaces [1] t.before.inFlight) ∧
            requestsIn later ≠ []) := by
  have run := @run_of_trace? ⟨"db", none, .one, .nanoseconds, by decide, by decide⟩
    ⟨2, 1000, 0, 3, 2, 5, by decide, by decide, by decide⟩ _ _
    [.submit (.record "a f=1i"), .submit (.record "b f=2i"), .work 0, .work 0, .work 0, .work 0,
      .submit (.record "c f=3i"), .submit (.record "d f=4i")] rfl
  have more := run_append_of_trace? run (show trace? _
    [.reply (.outcome (.rejected [1] "no")), .work 0, .work 0, .work 0, .work 0] =
      some (_ :: _, _) from rfl)
  obtain ⟨places, records, hreply, rfl, -, hsent, -⟩ :=
    (failure_is_told_right_iff more _ _ _ rfl _
      (List.mem_cons_of_mem _ List.mem_cons_self)).2 "no" rfl
  cases hreply
  exact ⟨_, _, _, _, _, more, List.mem_cons_of_mem _ List.mem_cons_self, rfl, rfl, hsent⟩

/-- Without any retries, a record is told to be retryable and does not wait for another attempt, and
another one is told to be rejected and is not sent again before the task is done. -/
theorem failure_told_wrong :
    ∃ earlier t between u later p e f,
      Run ⟨"db", none, .one, .nanoseconds, by decide, by decide⟩
          ⟨1, 1000, 0, 3, 2, 0, by decide, by decide, by decide⟩
          (earlier ++ t :: between ++ u :: later) p ∧
        (e ∈ Effect.events t.effects ∧ e.detail = .failed (some 503) "busy" true ∧
          t.before.inFlight.map Pending.serial = [0] ∧ t.after.retries.items = []) ∧
        f ∈ Effect.events u.effects ∧ f.detail = .rejected "no" ∧ f.items.length = 1 ∧
          p.stage = .done ∧ requestsIn later = [] := by
  have first := @run_of_trace? ⟨"db", none, .one, .nanoseconds, by decide, by decide⟩
    ⟨1, 1000, 0, 3, 2, 0, by decide, by decide, by decide⟩ _ _
    [.submit (.record "a f=1i"), .work 0, .work 0, .work 0, .work 0] rfl
  have second := run_append_of_trace? first (show trace? _
    [.reply (.outcome (.failure (some 503) "busy")), .submit (.record "b f=2i"), .work 0, .work 0,
      .work 0, .work 0] = some (_ :: _, _) from rfl)
  have third := run_append_of_trace? second (show trace? _
    [.reply (.outcome (.rejected [0] "no")), .beginClose, .work 0, .work 0, .work 0, .work 0,
      .work 0, .work 0] = some (_ :: _, _) from rfl)
  exact ⟨_, _, _, _, _, _, _, _, third,
    ⟨List.mem_cons_of_mem _ List.mem_cons_self, rfl, rfl, rfl⟩,
    List.mem_cons_of_mem _ List.mem_cons_self, rfl, rfl, rfl, rfl⟩

end Runs

end Pipeline

end TimeSeries
