import TimeSeries.Proofs.Pipeline.Exchange

/-!
# What a pipeline tells about its requests

`report` says what is told about a request, given the reply to it: the outcome and what follows from
it for the batch, or the reason why there is no outcome. A run tells this for its requests, one
after the other, and in between it tells of the records that a full queue drops, each by itself
(`events_of_turn`).
-/

namespace TimeSeries

namespace Outcome

/-- A failure may go away by itself if there is no status, or one that asks for patience or blames
the server. -/
theorem statusRetryable_eq_decide (status : Option Nat) :
    statusRetryable status = decide (∀ s ∈ status, s = 429 ∨ 500 ≤ s) := by
  cases status with
  | none => simp [statusRetryable]
  | some s => simp [statusRetryable, beq_eq_decide]

end Outcome

/-- The event tells of a record that was dropped from a full queue. -/
def WriteEvent.isDrop (e : WriteEvent) : Bool := decide (e.detail.kind = .dropped)

/-- No element is named by places behind the end. -/
theorem atPlaces_eq_nil_iff {α : Type} {places : List Nat} {l : List α} :
    atPlaces places l = [] ↔ ∀ i ∈ places, l.length ≤ i := by
  rw [atPlaces, List.map_eq_nil_iff, List.filter_eq_nil_iff]
  constructor
  · intro h i hi
    by_contra hlt
    have hget := List.getElem?_eq_getElem (Nat.lt_of_not_le hlt)
    exact h (l[i], i) (List.mem_zipIdx_iff_getElem?.2 hget) (List.contains_iff_mem.2 hi)
  · rintro h ⟨a, i⟩ he hi
    have hlt := (List.getElem?_eq_some_iff.1 (List.mem_zipIdx_iff_getElem?.1 he)).1
    exact absurd (h i (List.contains_iff_mem.1 hi)) (Nat.not_le_of_lt hlt)

namespace Pipeline

/-- What is told of an outcome: a batch is stored, unless places of the batch were rejected or it
failed as a whole. -/
def verdict (options : WriteOptions) (batch : List Pending) : Outcome → WriteEvent
  | .success => ⟨batch.map Pending.item, options, .stored⟩
  | .rejected places reason =>
    if ∀ i ∈ places, batch.length ≤ i then ⟨batch.map Pending.item, options, .stored⟩
    else ⟨(atPlaces places batch).map Pending.item, options, .rejected reason⟩
  | .failure status message =>
    ⟨batch.map Pending.item, options,
      .failed status message (decide (∀ s ∈ status, s = 429 ∨ 500 ≤ s))⟩

/-- What is told of a request and the reply to it. -/
def report (options : WriteOptions) : List Pending × Reply → List WriteEvent
  | (batch, .outcome o) =>
    [⟨batch.map Pending.item, options, .answered o⟩, verdict options batch o]
  | (batch, .fault e) => [⟨batch.map Pending.item, options, .unhandled e.message⟩]
  | (_, .breakdown) => []

/-- What is told of the records that a step drops from a full queue. -/
def Transition.drops (t : Transition) : List WriteEvent :=
  (t.before.departing t.action .dropped).map fun r =>
    ⟨[r.item], t.before.options, .dropped t.after.queue.length⟩

/-- The events of a history. -/
def eventsIn (history : List Transition) : List WriteEvent :=
  history.flatMap fun t => Effect.events t.effects

theorem events_retryLater (p : Pipeline) (records : List Pending) :
    Effect.events (p.retryLater records).2 = [] := by
  rw [retryLater_eq]
  rfl

theorem events_receive (p : Pipeline) (batch : List Pending) (phase : Phase) (r : Reply) :
    Effect.events (p.receive batch phase r).2 = report p.options (batch, r) := by
  cases r with
  | outcome o =>
      have htold : Effect.events (p.receive batch phase (.outcome o)).2 =
          ⟨batch.map Pending.item, p.options, .answered o⟩ ::
            Effect.events ((p.inStage phase.next).settle batch o).2 := rfl
      rw [htold, report]
      congr 1
      cases o with
      | success => rfl
      | rejected places reason =>
          simp only [settle, splitPlaces_zero, verdict, ← atPlaces_eq_nil_iff]
          by_cases hnone : atPlaces places batch = []
          · simp only [if_pos hnone]
            rfl
          · simp only [if_neg hnone]
            exact congrArg (List.cons _)
              (events_retryLater (p.inStage phase.next) (atPlaces places batch))
      | failure status message =>
          rw [settle, verdict, ← Outcome.statusRetryable_eq_decide]
          by_cases hretry : Outcome.statusRetryable status = true
          · simp only [if_pos hretry]
            exact congrArg (List.cons _) (events_retryLater (p.inStage phase.next) batch)
          · simp only [if_neg hretry]
            rfl
  | fault e =>
      exact congrArg (List.cons _) (events_retryLater (p.inStage phase.next) batch)
  | breakdown => rfl

/-- A full queue drops its oldest record and nothing else. -/
theorem overflow_eq_of_full {p : Pipeline} {r : Pending} {rest : List Pending}
    (hfull : p.policy.queueCapacity ≤ p.queue.length) (hqueue : p.queue = r :: rest) :
    p.overflow = [r] := by
  rw [overflow, if_pos hfull, hqueue]
  rfl

theorem overflow_eq_nil_or_singleton (p : Pipeline) :
    p.overflow = [] ∨
      ∃ r rest, p.policy.queueCapacity ≤ p.queue.length ∧ p.queue = r :: rest ∧
        p.overflow = [r] := by
  by_cases hfull : p.policy.queueCapacity ≤ p.queue.length
  · cases hqueue : p.queue with
    | nil => simp [overflow, hqueue]
    | cons r rest => exact Or.inr ⟨r, rest, hqueue ▸ hfull, rfl, overflow_eq_of_full hfull hqueue⟩
  · exact Or.inl (if_neg hfull)

theorem events_enqueue (p : Pipeline) (item : Item) :
    Effect.events (p.enqueue item).2 =
      p.overflow.map fun r =>
        ⟨[r.item], p.options, .dropped (p.enqueue item).1.queue.length⟩ := by
  rw [enqueue_snd]
  rcases overflow_eq_nil_or_singleton p with hnone | ⟨r, rest, -, -, hone⟩
  · rw [if_pos hnone, hnone]
    rfl
  · rw [if_neg (by simp [hone]), hone]
    rfl

/-- A step tells of what it drops and of the reply that it brings. -/
theorem events_of_turn {p q : Pipeline} {a : Action} {effects : List Effect}
    (h : Turn p a q effects) :
    Effect.events effects =
      Transition.drops ⟨p, a, q, effects⟩ ++
        (Transition.exchange ⟨p, a, q, effects⟩).flatMap (report p.options) := by
  cases h with
  | accept hitem =>
      rw [events_enqueue]
      simp [Transition.drops, Transition.exchange, departing, hitem]
  | refuse hnone => simp [Transition.drops, Transition.exchange, departing, hnone, Effect.events]
  | answer hstage =>
      rw [events_receive]
      simp [Transition.drops, Transition.exchange, departing, inFlight_of_stage hstage]
  | _ => simp [Transition.drops, Transition.exchange, departing, Effect.events, send]

theorem isDrop_of_mem_drops {t : Transition} {e : WriteEvent} (h : e ∈ t.drops) :
    e.isDrop = true := by
  obtain ⟨r, -, rfl⟩ := List.mem_map.1 h
  rfl

theorem isDrop_of_mem_report {options : WriteOptions} {x : List Pending × Reply} {e : WriteEvent}
    (h : e ∈ report options x) : e.isDrop = false := by
  obtain ⟨batch, r⟩ := x
  cases r with
  | outcome o =>
      rcases List.mem_pair.1 h with rfl | rfl
      · rfl
      · cases o with
        | success => rfl
        | rejected places reason =>
            rw [verdict]
            split <;> rfl
        | failure status message => rfl
  | fault e =>
      obtain rfl := List.mem_singleton.1 h
      rfl
  | breakdown => cases h

/-- What a step drops, seen in the queue. -/
theorem drops_of_turn {p q : Pipeline} {a : Action} {effects : List Effect}
    (h : Turn p a q effects) :
    Transition.drops ⟨p, a, q, effects⟩ = [] ∧
        (∀ s, a = .submit s → p.queue <+: q.queue) ∨
      ∃ s r rest, a = .submit s ∧ p.policy.queueCapacity ≤ p.queue.length ∧ p.queue = r :: rest ∧
        rest <+: q.queue ∧
        Transition.drops ⟨p, a, q, effects⟩ =
          [⟨[r.item], p.options, .dropped q.queue.length⟩] := by
  cases h with
  | @accept s item hitem =>
      have hqueue := overflow_append_queue_enqueue p item
      rcases overflow_eq_nil_or_singleton p with hnone | ⟨r, rest, hfull, hcons, hone⟩
      · rw [hnone, List.nil_append] at hqueue
        refine Or.inl ⟨by simp [Transition.drops, departing, hitem, hnone], fun _ _ => ?_⟩
        exact hqueue ▸ List.prefix_append _ _
      · rw [hone, hcons, List.singleton_append, List.cons_append] at hqueue
        refine Or.inr ⟨s, r, rest, rfl, hfull, hcons, ?_, ?_⟩
        · exact (List.cons.inj hqueue).2 ▸ List.prefix_append _ _
        · simp [Transition.drops, departing, hitem, hone]
  | refuse hnone =>
      exact Or.inl ⟨by simp [Transition.drops, departing, hnone], fun _ _ => List.prefix_rfl⟩
  | _ => exact Or.inl ⟨by simp [Transition.drops, departing], by simp⟩

theorem ne_nil_of_mem_requests {p q : Pipeline} {a : Action} {effects : List Effect}
    {batch : List Pending} (h : Motion p a q effects) (hbatch : batch ∈ Effect.requests effects) :
    batch ≠ [] := by
  cases h with
  | accept _ =>
      rw [enqueue_snd] at hbatch
      split at hbatch <;> simp [tell] at hbatch
  | quiet _ _ _ _ _ _ _ => cases hbatch
  | request _ _ _ hsome => exact List.mem_singleton.1 hbatch ▸ hsome
  | discard _ => cases hbatch
  | answer _ => simp [requests_receive] at hbatch

section Runs

variable {options : WriteOptions} {policy : BatchOptions} {history : List Transition}
  {p : Pipeline}

theorem setup_of_mem_run (run : Run options policy history p) {t : Transition}
    (ht : t ∈ history) : t.before.options = options ∧ t.before.policy = policy := by
  obtain ⟨earlier, later, rfl⟩ := List.append_of_mem ht
  obtain ⟨hbefore, -⟩ := run_of_append_cons run
  exact ⟨options_of_run hbefore, policy_of_run hbefore⟩

theorem events_of_mem_run (run : Run options policy history p) {t : Transition}
    (ht : t ∈ history) :
    Effect.events t.effects = t.drops ++ t.exchange.flatMap (report options) := by
  rw [← (setup_of_mem_run run ht).1]
  exact events_of_turn (step_turn (step_of_mem_run run ht))

/-- Apart from the drops, a run tells of its requests, in the order in which they were sent. -/
theorem filter_eventsIn (run : Run options policy history p) :
    (eventsIn history).filter (fun e => !e.isDrop) =
      (exchanges history).flatMap (report options) := by
  rw [eventsIn, List.filter_flatMap, exchanges, List.flatMap_assoc]
  refine List.flatMap_congr fun t ht => ?_
  rw [events_of_mem_run run ht, List.filter_append, List.filter_eq_nil_iff.2,
    List.filter_eq_self.2, List.nil_append]
  · intro e he
    obtain ⟨x, -, he⟩ := List.mem_flatMap.1 he
    rw [isDrop_of_mem_report he, Bool.not_false]
  · intro e he
    rw [isDrop_of_mem_drops he]
    decide

theorem filter_isDrop_eventsIn (run : Run options policy history p) :
    (eventsIn history).filter WriteEvent.isDrop = history.flatMap Transition.drops := by
  rw [eventsIn, List.filter_flatMap]
  refine List.flatMap_congr fun t ht => ?_
  rw [events_of_mem_run run ht, List.filter_append, List.filter_eq_self.2,
    List.filter_eq_nil_iff.2, List.append_nil]
  · intro e he
    obtain ⟨x, -, he⟩ := List.mem_flatMap.1 he
    rw [isDrop_of_mem_report he]
    decide
  · exact fun e he => isDrop_of_mem_drops he

/-- As long as nothing is handed in, nothing is sent. -/
theorem requestsIn_eq_nil_of_quiet (run : Run options policy history p)
    (hquiet : ∀ t ∈ history, ∀ s, t.action ≠ .submit s) : requestsIn history = [] := by
  have hintake : intake history = [] := by
    refine List.flatMap_eq_nil_iff.2 fun t ht => ?_
    cases haction : t.action with
    | submit s => exact absurd haction (hquiet t ht s)
    | _ => rfl
  refine List.flatMap_eq_nil_iff.2 fun t ht => ?_
  refine List.eq_nil_iff_forall_not_mem.2 fun batch hbatch => ?_
  obtain ⟨r, hr⟩ := List.exists_mem_of_ne_nil batch
    (ne_nil_of_mem_requests (step_motion (step_of_mem_run run ht)) hbatch)
  obtain ⟨earlier, later, rfl⟩ := List.append_of_mem ht
  have hget := getElem?_intake_of_mem_request run hbatch hr
  rw [hintake] at hget
  cases hget

/-- As long as nothing is handed in, nothing is told. -/
theorem eventsIn_eq_nil_of_quiet (run : Run options policy history p)
    (hquiet : ∀ t ∈ history, ∀ s, t.action ≠ .submit s) : eventsIn history = [] := by
  have hexchanges : exchanges history = [] := by
    have hrequests := requestsIn_eq_exchanges run
    rw [requestsIn_eq_nil_of_quiet run hquiet] at hrequests
    exact List.map_eq_nil_iff.1 (List.append_eq_nil_iff.1 hrequests.symm).1
  refine List.flatMap_eq_nil_iff.2 fun t ht => ?_
  have hdrops : t.drops = [] := by
    rcases drops_of_turn (step_turn (step_of_mem_run run ht)) with ⟨hnone, -⟩ | ⟨s, _, _, hs, -⟩
    · exact hnone
    · exact absurd hs (hquiet t ht s)
  rw [events_of_mem_run run ht, hdrops, List.flatMap_eq_nil_iff.1 hexchanges t ht]
  rfl

end Runs

end Pipeline

end TimeSeries
