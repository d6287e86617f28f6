import TimeSeries.Proofs.Pipeline.Order

/-!
# Requests and their replies

One request is on its way at a time, so the requests of a run are those that got a reply, in the
order in which they were sent, and then the one that still waits for its reply
(`requestsIn_eq_exchanges`). Everything that waits for another attempt goes with a request, so the
retry buffer is empty as long as there is no reply, and for good when there will be none
(`retries_eq_nil_of_run`).
-/

namespace TimeSeries

/-- The network had an answer, a verdict or the reason why there is none. -/
def Reply.isAnswer : Reply → Bool
  | .breakdown => false
  | _ => true

/-- A stage in which nothing waits for another attempt. -/
def Stage.Swept : Stage → Prop
  | .sending _ _ | .dead => True
  | _ => False

namespace Pipeline

/-- The request that a transition brings the reply for, with the reply. -/
def Transition.exchange (t : Transition) : List (List Pending × Reply) :=
  match t.action with
  | .reply r => [(t.before.inFlight, r)]
  | _ => []

/-- The requests that got a reply, the first one first. -/
def exchanges (history : List Transition) : List (List Pending × Reply) :=
  history.flatMap Transition.exchange

/-- The requests that were answered. -/
def answered (history : List Transition) : List (List Pending) :=
  ((exchanges history).filter fun e => e.2.isAnswer).map Prod.fst

/-- The request that waits for its reply. -/
def unanswered (p : Pipeline) : List (List Pending) :=
  match p.stage with
  | .sending batch _ => [batch]
  | _ => []

theorem unanswered_eq_nil {p : Pipeline} (h : ¬p.stage.Swept) : p.unanswered = [] := by
  cases hstage : p.stage with
  | sending batch phase => exact absurd (by rw [hstage]; trivial) h
  | _ => simp [unanswered, hstage]

theorem unanswered_eq_singleton {p : Pipeline} (h : p.inFlight ≠ []) :
    p.unanswered = [p.inFlight] := by
  cases hstage : p.stage with
  | sending batch phase => simp [unanswered, inFlight, hstage]
  | _ => simp [inFlight, hstage] at h

theorem exchanges_append (earlier later : List Transition) :
    exchanges (earlier ++ later) = exchanges earlier ++ exchanges later :=
  List.flatMap_append

theorem exchanges_singleton (t : Transition) : exchanges [t] = t.exchange := by
  rw [exchanges, List.flatMap_cons, List.flatMap_nil, List.append_nil]

theorem mem_exchanges {history : List Transition} {e : List Pending × Reply}
    (h : e ∈ exchanges history) :
    ∃ t ∈ history, t.action = .reply e.2 ∧ e.1 = t.before.inFlight := by
  obtain ⟨t, ht, he⟩ := List.mem_flatMap.1 h
  rw [Transition.exchange] at he
  split at he
  · next r haction =>
      obtain rfl := List.mem_singleton.1 he
      exact ⟨t, ht, haction, rfl⟩
  · cases he

/-- What a step adds to the requests is on its way behind it, and what it takes away has its
reply. -/
theorem unanswered_append_requests {p q : Pipeline} {a : Action} {effects : List Effect}
    (h : Turn p a q effects) :
    p.unanswered ++ Effect.requests effects =
      (Transition.exchange ⟨p, a, q, effects⟩).map Prod.fst ++ q.unanswered := by
  cases h with
  | accept hitem =>
      rw [enqueue_snd]
      split <;> simp [tell, Transition.exchange, unanswered, enqueue]
  | @answer batch phase r hstage =>
      have hflight := inFlight_of_stage hstage
      rw [requests_receive, unanswered, unanswered, receive_fst, hstage]
      cases r <;> cases phase <;> simp [Transition.exchange, Reply.next, Phase.next, hflight]
  | _ => simp_all [Transition.exchange, unanswered, inStage, send, Effect.requests]

theorem retries_eq_nil_of_turn {p q : Pipeline} {a : Action} {effects : List Effect}
    (h : Turn p a q effects) (hp : p.stage.Swept → p.retries.items = []) :
    q.stage.Swept → q.retries.items = [] := by
  cases h with
  | accept _ => exact hp
  | refuse _ => exact hp
  | beginClose => exact hp
  | finishClose _ => exact hp
  | elapse => exact hp
  | flush _ _ => exact fun _ => rfl
  | drain _ _ => exact fun _ => rfl
  | retry _ _ => exact fun _ => rfl
  | @answer batch phase r hstage =>
      intro hswept
      have hnone := hp (by simp [hstage, Stage.Swept])
      rw [receive_fst] at hswept ⊢
      cases r with
      | breakdown => exact hnone
      | outcome o => cases phase <;> simp [Reply.next, Phase.next, Stage.Swept] at hswept
      | fault e => cases phase <;> simp [Reply.next, Phase.next, Stage.Swept] at hswept
  | _ => simp [inStage, Stage.Swept]

theorem dead_of_turn {p q : Pipeline} {a : Action} {effects : List Effect}
    (h : Turn p a q effects) (hp : p.stage = .dead ∨ a = .reply .breakdown) : q.stage = .dead := by
  cases h with
  | @answer batch phase r hstage =>
      rcases hp with hp | hp
      · cases hstage.symm.trans hp
      · obtain rfl : r = .breakdown := by simpa using hp
        rw [receive_fst]
        rfl
  | _ => simp_all [enqueue]

section Runs

variable {options : WriteOptions} {policy : BatchOptions} {history : List Transition}
  {p : Pipeline}

/-- The requests of a run are those with a reply and the one that waits for it. -/
theorem requestsIn_eq_exchanges (run : Run options policy history p) :
    requestsIn history = (exchanges history).map Prod.fst ++ p.unanswered := by
  induction run with
  | start => rfl
  | @step history p q effects action _ hstep ih =>
      rw [requestsIn_append, requestsIn_singleton, ih, exchanges_append, exchanges_singleton,
        List.map_append, List.append_assoc, List.append_assoc,
        unanswered_append_requests (step_turn hstep)]

theorem retries_eq_nil_of_run (run : Run options policy history p)
    (hswept : p.stage.Swept) : p.retries.items = [] := by
  induction run with
  | start => exact hswept.elim
  | step action _ hstep ih => exact retries_eq_nil_of_turn (step_turn hstep) ih hswept

theorem dead_of_breakdown (run : Run options policy history p) {t : Transition}
    (ht : t ∈ history) (hbreak : t.action = .reply .breakdown) : p.stage = .dead := by
  induction run with
  | start => exact absurd ht List.not_mem_nil
  | @step history p q effects action _ hstep ih =>
      rcases List.mem_append.1 ht with ht | ht
      · exact dead_of_turn (step_turn hstep) (Or.inl (ih ht))
      · obtain rfl := List.mem_singleton.1 ht
        exact dead_of_turn (step_turn hstep) (Or.inr hbreak)

/-- Unless the task broke down, the requests of a run are those that were answered and the one that
waits for its reply. -/
theorem requestsIn_eq_answered (run : Run options policy history p) (hlive : p.stage ≠ .dead) :
    requestsIn history = answered history ++ p.unanswered := by
  have hall : ∀ e ∈ exchanges history, e.2.isAnswer = true := by
    rintro ⟨batch, r⟩ he
    obtain ⟨t, ht, haction, -⟩ := mem_exchanges he
    cases r with
    | breakdown => exact absurd (dead_of_breakdown run ht haction) hlive
    | outcome o => rfl
    | fault e => rfl
  rw [requestsIn_eq_exchanges run, answered, List.filter_eq_self.2 hall]

end Runs

end Pipeline

end TimeSeries
