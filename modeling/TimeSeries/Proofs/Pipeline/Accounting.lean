import TimeSeries.Proofs.Pipeline.Run

/-!
# Accounting for the records of a pipeline

`departing` says which records leave a pipeline in a step and with which fate. It is said from the
state and the action alone: a full queue drops its oldest record, a reply stores or refuses what it
names, what failed once too often expires, what the retry buffer has no room for is evicted, and at
the end what still waits is abandoned. `departed_eq_departing` ties it to the effects of steps.

`tally_step` is the balance of one step: whatever left, and whatever is held behind the step, was
held in front of it or has just been accepted. A record is counted by its `label`, which no step
changes, since the number of attempts is not part of it.
-/

namespace TimeSeries

/-- What stays the same of a record. -/
def Pending.label (r : Pending) : Item × Nat := (r.item, r.serial)

/-- A record behind one more attempt that failed. -/
def Pending.failed (r : Pending) : Pending := { r with attempts := r.attempts + 1 }

/-- How often a label occurs among records. -/
def tally (x : Item × Nat) (l : List Pending) : Nat := l.countP fun r => decide (r.label = x)

section Tally

variable (x : Item × Nat)

@[simp] theorem tally_nil : tally x [] = 0 := rfl

@[simp] theorem tally_append (l m : List Pending) : tally x (l ++ m) = tally x l + tally x m :=
  List.countP_append

theorem tally_cons (r : Pending) (l : List Pending) :
    tally x (r :: l) = tally x [r] + tally x l := by
  rw [← List.singleton_append, tally_append]

theorem tally_eq_count (l : List Pending) : tally x l = (l.map Pending.label).count x := by
  rw [List.count, List.countP_map]
  exact List.countP_congr fun r _ => by simp

theorem tally_take_add_drop (n : Nat) (l : List Pending) :
    tally x (l.take n) + tally x (l.drop n) = tally x l := by
  rw [← tally_append, List.take_append_drop]

theorem tally_filter_add (f : Pending → Bool) (l : List Pending) :
    tally x (l.filter f) + tally x (l.filter fun r => !f r) = tally x l := by
  induction l with
  | nil => rfl
  | cons r l ih =>
      rw [tally_cons x r l]
      cases h : f r with
      | true =>
          rw [List.filter_cons_of_pos h, List.filter_cons_of_neg (by simp [h]), tally_cons]
          omega
      | false =>
          rw [List.filter_cons_of_neg (by simp [h]), List.filter_cons_of_pos (by simp [h]),
            tally_cons x r (l.filter fun r => !f r)]
          omega

theorem tally_map_failed (l : List Pending) : tally x (l.map Pending.failed) = tally x l := by
  simp only [tally, List.countP_map]
  rfl

theorem tally_offer (b : RetryBuffer Pending) (l : List Pending) :
    tally x (b.offer l).2 + tally x (b.offer l).1.items = tally x b.items + tally x l := by
  rw [← tally_append, RetryBuffer.offer_items, tally_append]

end Tally

/-- The elements of a list whose place, counted from zero, is named. -/
def atPlaces {α : Type} (places : List Nat) (l : List α) : List α :=
  (l.zipIdx.filter fun e => places.contains e.2).map Prod.fst

/-- The elements of a list whose place, counted from zero, is not named. -/
def offPlaces {α : Type} (places : List Nat) (l : List α) : List α :=
  (l.zipIdx.filter fun e => !places.contains e.2).map Prod.fst

theorem splitPlaces_eq_zipIdx {α : Type} (places : List Nat) (i : Nat) (l : List α) :
    splitPlaces places i l =
      (((l.zipIdx i).filter fun e => places.contains e.2).map Prod.fst,
        ((l.zipIdx i).filter fun e => !places.contains e.2).map Prod.fst) := by
  induction l generalizing i with
  | nil => rfl
  | cons a l ih =>
      rw [splitPlaces, ih (i + 1), List.zipIdx_cons]
      cases h : places.contains i <;>
        simp only [List.filter_cons, h, Bool.not_true, Bool.not_false, Bool.false_eq_true, if_true,
          if_false, List.map_cons]

theorem splitPlaces_zero {α : Type} (places : List Nat) (l : List α) :
    splitPlaces places 0 l = (atPlaces places l, offPlaces places l) :=
  splitPlaces_eq_zipIdx places 0 l

theorem tally_splitPlaces (x : Item × Nat) (places : List Nat) (i : Nat) (l : List Pending) :
    tally x (splitPlaces places i l).1 + tally x (splitPlaces places i l).2 = tally x l := by
  induction l generalizing i with
  | nil => rfl
  | cons r l ih =>
      have hrest := ih (i + 1)
      rw [splitPlaces, tally_cons x r l]
      cases h : places.contains i with
      | true =>
          simp only [if_true]
          rw [tally_cons]
          omega
      | false =>
          simp only [Bool.false_eq_true, if_false]
          rw [tally_cons x r (splitPlaces places (i + 1) l).2]
          omega

theorem offPlaces_eq_self {α : Type} {places : List Nat} {l : List α}
    (h : atPlaces places l = []) : offPlaces places l = l := by
  have hnone : ∀ e ∈ l.zipIdx, places.contains e.2 = false := by
    intro e he
    by_contra hcontains
    have : e.1 ∈ atPlaces places l :=
      List.mem_map_of_mem (List.mem_filter.2 ⟨he, by simpa using hcontains⟩)
    rw [h] at this
    exact List.not_mem_nil this
  have hall : (l.zipIdx.filter fun e => !places.contains e.2) = l.zipIdx :=
    List.filter_eq_self.2 fun e he => by rw [hnone e he, Bool.not_false]
  rw [offPlaces, hall, List.zipIdx_map_fst]

namespace Reply

/-- The records of a request that a reply reports as stored. -/
def stored (batch : List Pending) : Reply → List Pending
  | .outcome .success => batch
  | .outcome (.rejected places _) => offPlaces places batch
  | _ => []

/-- The records of a request that a reply refuses for good. -/
def refused (batch : List Pending) : Reply → List Pending
  | .outcome (.failure status _) => if Outcome.statusRetryable status then [] else batch
  | _ => []

/-- The records of a request that failed and may be worth another attempt. -/
def returned (batch : List Pending) : Reply → List Pending
  | .outcome (.rejected places _) => atPlaces places batch
  | .outcome (.failure status _) => if Outcome.statusRetryable status then batch else []
  | .fault _ => batch
  | _ => []

/-- A reply makes the task turn to the retry buffer. -/
def retries (batch : List Pending) : Reply → Bool
  | .outcome (.rejected places _) => !(atPlaces places batch).isEmpty
  | .outcome (.failure status _) => Outcome.statusRetryable status
  | .fault _ => true
  | _ => false

theorem returned_eq_nil {batch : List Pending} {r : Reply} (h : r.retries batch = false) :
    r.returned batch = [] := by
  cases r with
  | outcome o =>
      cases o with
      | success => rfl
      | rejected places reason => simpa [retries, returned] using h
      | failure status message =>
          rw [retries] at h
          simp [returned, h]
  | fault e => cases h
  | breakdown => rfl

/-- The records of a request that are lost with the task. -/
def lost (batch : List Pending) : Reply → List Pending
  | .breakdown => batch
  | _ => []

/-- What the task does next when a reply to a request of a phase has come. -/
def next (phase : Phase) : Reply → Stage
  | .breakdown => .dead
  | _ => phase.next

theorem tally_reply (x : Item × Nat) (r : Reply) (batch : List Pending) :
    tally x (r.stored batch) + tally x (r.refused batch) + tally x (r.returned batch) +
      tally x (r.lost batch) = tally x batch := by
  cases r with
  | outcome o =>
      cases o with
      | success => simp [stored, refused, returned, lost]
      | rejected places reason =>
          have h : tally x (atPlaces places batch) + tally x (offPlaces places batch) =
              tally x batch := by
            rw [← tally_splitPlaces x places 0 batch, splitPlaces_zero]
          simp only [stored, refused, returned, lost, tally_nil]
          omega
      | failure status message =>
          by_cases h : Outcome.statusRetryable status = true <;>
            simp [stored, refused, returned, lost, h]
  | fault e => simp [stored, refused, returned, lost]
  | breakdown => simp [stored, refused, returned, lost]

end Reply

def Fate.all : List Fate := [.stored, .dropped, .refused, .expired, .evicted, .abandoned, .lost]

theorem Fate.mem_all (fate : Fate) : fate ∈ Fate.all := by
  cases fate <;> decide

namespace Effect

/-- The records that leave with a fate, among effects. -/
def departed (fate : Fate) (l : List Effect) : List Pending :=
  l.flatMap fun
    | .left f records => if f = fate then records else []
    | _ => []

@[simp] theorem departed_nil (fate : Fate) : departed fate [] = [] := rfl

@[simp] theorem departed_request (fate : Fate) (batch : List Pending) (l : List Effect) :
    departed fate (.request batch :: l) = departed fate l := rfl

@[simp] theorem departed_event (fate : Fate) (e : WriteEvent) (l : List Effect) :
    departed fate (.event e :: l) = departed fate l := rfl

@[simp] theorem requests_nil : requests [] = [] := rfl

@[simp] theorem requests_event (e : WriteEvent) (l : List Effect) :
    requests (.event e :: l) = requests l := rfl

@[simp] theorem requests_left (f : Fate) (records : List Pending) (l : List Effect) :
    requests (.left f records :: l) = requests l := rfl

@[simp] theorem departed_left (fate f : Fate) (records : List Pending) (l : List Effect) :
    departed fate (.left f records :: l) =
      (if f = fate then records else []) ++ departed fate l := rfl

end Effect

namespace Pipeline

/-- Of records that failed once more, those that may be tried again. -/
def kept (p : Pipeline) (records : List Pending) : List Pending :=
  (records.map Pending.failed).filter fun r => decide (r.attempts ≤ p.policy.maxRetries)

/-- Of records that failed once more, those that failed too often. -/
def expired (p : Pipeline) (records : List Pending) : List Pending :=
  (records.map Pending.failed).filter fun r => decide (p.policy.maxRetries < r.attempts)

theorem retryLater_eq (p : Pipeline) (records : List Pending) :
    p.retryLater records =
      ({ p with retries := (p.retries.offer (p.kept records)).1 },
        [.left .expired (p.expired records),
          .left .evicted (p.retries.offer (p.kept records)).2]) := by
  have hexpired : ((records.map Pending.failed).filter fun r =>
      decide (¬r.attempts ≤ p.policy.maxRetries)) = p.expired records :=
    List.filter_congr fun r _ => by simp
  rw [← hexpired]
  rfl

theorem tally_kept_add_expired (x : Item × Nat) (p : Pipeline) (records : List Pending) :
    tally x (p.kept records) + tally x (p.expired records) = tally x records := by
  have hexpired : p.expired records = (records.map Pending.failed).filter fun r =>
      !decide (r.attempts ≤ p.policy.maxRetries) :=
    List.filter_congr fun r _ => by simp [← decide_not]
  rw [kept, hexpired, tally_filter_add, tally_map_failed]

/-- What a full queue drops for one more record. -/
def overflow (p : Pipeline) : List Pending :=
  if p.policy.queueCapacity ≤ p.queue.length then p.queue.take 1 else []

/-- The records that leave a pipeline with a fate when something happens to it. -/
def departing (p : Pipeline) : Action → Fate → List Pending
  | .submit s, .dropped => if (p.admits? s).isSome then p.overflow else []
  | .reply r, .stored => r.stored p.inFlight
  | .reply r, .refused => r.refused p.inFlight
  | .reply r, .expired => p.expired (r.returned p.inFlight)
  | .reply r, .evicted => (p.retries.offer (p.kept (r.returned p.inFlight))).2
  | .reply r, .lost => r.lost p.inFlight
  | .work _, .abandoned => if p.stage = .discarding then p.retries.items else []
  | _, _ => []

/-- All records that leave a pipeline when something happens to it. -/
def leaving (p : Pipeline) (a : Action) : List Pending := Fate.all.flatMap (p.departing a)

/-- The records that a pipeline has not yet done with. -/
def held (p : Pipeline) : List Pending := p.queue ++ p.retries.items ++ p.inFlight

/-- The item of a submission that is accepted. -/
def admitted (p : Pipeline) : Action → List Item
  | .submit s => (p.admits? s).toList
  | _ => []

/-- The retry buffer behind a reply. -/
def retriesBehind (p : Pipeline) (batch : List Pending) (r : Reply) : RetryBuffer Pending :=
  match r.retries batch with
  | true => (p.retries.offer (p.kept (r.returned batch))).1
  | false => p.retries

theorem items_retriesBehind (p : Pipeline) (batch : List Pending) (r : Reply) :
    (p.retriesBehind batch r).items = (p.retries.offer (p.kept (r.returned batch))).1.items := by
  cases h : r.retries batch with
  | true => rw [retriesBehind, h]
  | false =>
      rw [retriesBehind, h, Reply.returned_eq_nil h]
      rfl

section Receive

variable (p : Pipeline) (batch : List Pending) (phase : Phase) (r : Reply)

/-- A reply moves records into the retry buffer and changes the stage, and nothing else. -/
theorem receive_fst :
    (p.receive batch phase r).1 =
      { p with retries := p.retriesBehind batch r, stage := r.next phase } := by
  cases r with
  | outcome o =>
      cases o with
      | success => rfl
      | rejected places reason =>
          simp only [receive, settle, splitPlaces_zero, retriesBehind, Reply.retries]
          by_cases hempty : atPlaces places batch = []
          · rw [hempty]
            rfl
          · rw [if_neg hempty, List.isEmpty_eq_false_iff.2 hempty, retryLater_eq]
            rfl
      | failure status message =>
          simp only [receive, settle, retriesBehind, Reply.retries, Reply.returned]
          cases h : Outcome.statusRetryable status with
          | true =>
              rw [if_pos rfl, retryLater_eq]
              rfl
          | false => rfl
  | fault e =>
      simp only [receive, Reply.next]
      rw [retryLater_eq]
      rfl
  | breakdown => rfl

theorem departed_retryLater (fate : Fate) (records : List Pending) :
    Effect.departed fate (p.retryLater records).2 =
      (if fate = .expired then p.expired records else []) ++
        (if fate = .evicted then (p.retries.offer (p.kept records)).2 else []) := by
  rw [retryLater_eq]
  simp [eq_comm]

theorem departed_receive (fate : Fate) (h : p.inFlight = batch) :
    Effect.departed fate (p.receive batch phase r).2 = p.departing (.reply r) fate := by
  subst h
  have hkept : p.kept [] = [] := rfl
  have hexpired : p.expired [] = [] := rfl
  have hagain (records : List Pending) :
      ((p.inStage phase.next).retryLater records).2 = (p.retryLater records).2 := rfl
  cases r with
  | outcome o =>
      cases o with
      | success =>
          cases fate <;> simp [receive, settle, tell, departing, Reply.stored, Reply.refused,
            Reply.returned, Reply.lost, hkept, hexpired]
      | rejected places reason =>
          simp only [receive, settle, splitPlaces_zero, tell, Effect.departed_event]
          by_cases hnone : atPlaces places p.inFlight = []
          · rw [if_pos hnone]
            cases fate <;> simp [departing, Reply.stored, Reply.refused, Reply.returned,
              Reply.lost, hnone, hkept, hexpired, offPlaces_eq_self]
          · rw [if_neg hnone]
            simp only [List.cons_append, List.nil_append, Effect.departed_event,
              Effect.departed_left, hagain, departed_retryLater]
            cases fate <;> simp [departing, Reply.stored, Reply.refused, Reply.returned,
              Reply.lost]
      | failure status message =>
          simp only [receive, settle, tell, Effect.departed_event]
          cases hretry : Outcome.statusRetryable status with
          | true =>
              simp only [if_true, Effect.departed_event, hagain, departed_retryLater]
              cases fate <;> simp [departing, Reply.stored, Reply.refused, Reply.returned,
                Reply.lost, hretry]
          | false =>
              cases fate <;> simp [departing, Reply.stored, Reply.refused, Reply.returned,
                Reply.lost, hretry, hkept, hexpired]
  | fault e =>
      simp only [receive, tell, Effect.departed_event, hagain, departed_retryLater]
      cases fate <;> simp [departing, Reply.stored, Reply.refused, Reply.returned, Reply.lost]
  | breakdown =>
      cases fate <;> simp [receive, departing, Reply.stored, Reply.refused, Reply.returned,
        Reply.lost, hkept, hexpired]

theorem requests_receive : Effect.requests (p.receive batch phase r).2 = [] := by
  cases r with
  | outcome o =>
      cases o with
      | success => simp [receive, settle, tell]
      | rejected places reason =>
          simp only [receive, settle, splitPlaces_zero, tell, Effect.requests_event]
          by_cases hnone : atPlaces places batch = []
          · simp [hnone]
          · simp [hnone, retryLater_eq]
      | failure status message =>
          cases h : Outcome.statusRetryable status <;>
            simp [receive, settle, tell, h, retryLater_eq]
  | fault e => simp [receive, tell, retryLater_eq]
  | breakdown => simp [receive]

end Receive

theorem inFlight_receive {p : Pipeline} (batch : List Pending) (phase : Phase) (r : Reply) :
    (p.receive batch phase r).1.inFlight = [] := by
  rw [receive_fst]
  cases r <;> cases phase <;> rfl

theorem departing_of_idle {p : Pipeline} {a : Action} (h : p.Idle a) (fate : Fate) :
    p.departing a fate = [] := by
  cases a with
  | submit s =>
      have hnone : p.admits? s = none := h
      cases fate <;> simp [departing, hnone]
  | work jitter =>
      have hstage : p.stage ≠ .discarding := h
      cases fate <;> simp [departing, hstage]
  | reply r => exact h.elim
  | beginClose => cases fate <;> rfl
  | finishClose => cases fate <;> rfl
  | elapse millis => cases fate <;> rfl
  | wakeUp => cases fate <;> rfl
  | expire => cases fate <;> rfl

theorem admitted_of_idle {p : Pipeline} {a : Action} (h : p.Idle a) : p.admitted a = [] := by
  cases a with
  | submit s =>
      have hnone : p.admits? s = none := h
      simp [admitted, hnone]
  | _ => rfl

theorem overflow_append_queue_enqueue (p : Pipeline) (item : Item) :
    p.overflow ++ (p.enqueue item).1.queue = p.queue ++ [⟨p.accepted, item, 0⟩] := by
  by_cases hfull : p.policy.queueCapacity ≤ p.queue.length
  · simp only [overflow, enqueue, if_pos hfull]
    rw [← List.append_assoc, List.take_append_drop]
  · simp [overflow, enqueue, hfull]

theorem enqueue_snd (p : Pipeline) (item : Item) :
    (p.enqueue item).2 =
      if p.overflow = [] then []
      else [p.tell p.overflow (.dropped (p.enqueue item).1.queue.length),
        .left .dropped p.overflow] := by
  by_cases hfull : p.policy.queueCapacity ≤ p.queue.length
  · simp only [overflow, enqueue, if_pos hfull]
  · simp [overflow, enqueue, hfull]

theorem departing_submit {p : Pipeline} {s : Submission} {item : Item}
    (h : p.admits? s = some item) (fate : Fate) :
    Effect.departed fate (p.enqueue item).2 = p.departing (.submit s) fate := by
  rw [enqueue_snd]
  by_cases hnone : p.overflow = []
  · cases fate <;> simp [departing, h, hnone]
  · rw [if_neg hnone]
    cases fate <;> simp [departing, h, tell]

/-- The effects of a step report what leaves the pipeline. -/
theorem departed_eq_departing {p q : Pipeline} {a : Action} {effects : List Effect}
    (h : Motion p a q effects) (fate : Fate) :
    Effect.departed fate effects = p.departing a fate := by
  cases h with
  | accept hitem => exact departing_submit hitem fate
  | quiet _ _ _ _ _ _ hidle => rw [departing_of_idle hidle fate, Effect.departed_nil]
  | request _ _ hstage _ => cases fate <;> simp [departing, hstage]
  | discard hstage => cases fate <;> simp [departing, hstage]
  | answer hstage => exact departed_receive p _ _ _ fate (inFlight_of_stage hstage)

theorem inFlight_of_mem_requests {p q : Pipeline} {a : Action} {effects : List Effect}
    {batch : List Pending} (h : Motion p a q effects) (hbatch : batch ∈ Effect.requests effects) :
    q.inFlight = batch := by
  cases h with
  | @accept s item hitem =>
      rw [enqueue_snd] at hbatch
      by_cases hnone : p.overflow = [] <;> simp [hnone, tell] at hbatch
  | quiet _ _ _ _ _ _ _ => simp at hbatch
  | request _ _ _ _ => exact (List.mem_singleton.1 hbatch).symm
  | discard _ => simp at hbatch
  | answer _ => simp [requests_receive] at hbatch

section Balance

variable (x : Item × Nat) {p q : Pipeline}

theorem tally_leaving (a : Action) :
    tally x (p.leaving a) =
      tally x (p.departing a .stored) + tally x (p.departing a .dropped) +
        tally x (p.departing a .refused) + tally x (p.departing a .expired) +
        tally x (p.departing a .evicted) + tally x (p.departing a .abandoned) +
        tally x (p.departing a .lost) := by
  simp only [leaving, Fate.all, List.flatMap_cons, List.flatMap_nil, tally_append, tally_nil]
  omega

theorem tally_leaving_reply (r : Reply) :
    tally x (p.leaving (.reply r)) + tally x (p.kept (r.returned p.inFlight)) =
      tally x p.inFlight + tally x (p.retries.offer (p.kept (r.returned p.inFlight))).2 := by
  have hreply := Reply.tally_reply x r p.inFlight
  have hfailed := tally_kept_add_expired x p (r.returned p.inFlight)
  rw [tally_leaving]
  simp only [departing, tally_nil]
  omega

/-- Nothing is lost in a step and nothing is made up: what is held behind it and what left were held
in front of it or have just been accepted. -/
theorem tally_step {a : Action} {effects : List Effect} (h : Motion p a q effects) :
    tally x q.held + tally x (p.leaving a) =
      tally x p.held + ((p.admitted a).map fun item => (item, p.accepted)).count x := by
  cases h with
  | @accept s item hitem =>
      have hqueue := congrArg (tally x) (overflow_append_queue_enqueue p item)
      have hleaving : tally x (p.leaving (.submit s)) = tally x p.overflow := by
        rw [tally_leaving]
        simp [departing, hitem]
      have hheld : tally x (p.enqueue item).1.held =
          tally x (p.enqueue item).1.queue + tally x p.retries.items + tally x p.inFlight := by
        rw [held, tally_append, tally_append]
        rfl
      have hnew : tally x [⟨p.accepted, item, 0⟩] = [(item, p.accepted)].count x :=
        tally_eq_count x _
      rw [hleaving, hheld, held, admitted, hitem]
      simp only [tally_append, Option.toList_some, List.map_cons, List.map_nil] at hqueue hnew ⊢
      omega
  | quiet _ _ hqueue hretries hflight _ hidle =>
      have hleaving : tally x (p.leaving a) = 0 := by
        rw [tally_leaving]
        simp only [departing_of_idle hidle, tally_nil]
      rw [hleaving, admitted_of_idle hidle, held, held, hqueue, hretries, hflight]
      rfl
  | @request n queued jitter phase _ hflight hstage _ =>
      have hleaving : tally x (p.leaving (.work jitter)) = 0 := by
        rw [tally_leaving]
        simp [departing, hstage]
      have hsplit := tally_take_add_drop x n p.queue
      rw [hleaving, held, held, hflight]
      simp only [send, RetryBuffer.drain, RetryBuffer.empty, inFlight, tally_append, tally_nil,
        admitted, List.map_nil, List.count_nil]
      omega
  | @discard jitter hstage =>
      have hleaving : tally x (p.leaving (.work jitter)) = tally x p.retries.items := by
        rw [tally_leaving]
        simp [departing, hstage]
      have hflight : p.inFlight = [] := by simp [inFlight, hstage]
      rw [hleaving, held, held, hflight]
      simp only [withoutRetries, inStage, RetryBuffer.drain, RetryBuffer.empty, inFlight,
        tally_append, tally_nil, admitted, List.map_nil, List.count_nil]
      omega
  | @answer batch phase r hstage =>
      have hleaving := tally_leaving_reply x (p := p) r
      have hoffer := tally_offer x p.retries (p.kept (r.returned p.inFlight))
      have hheld : tally x (p.receive batch phase r).1.held =
          tally x p.queue + tally x (p.retries.offer (p.kept (r.returned p.inFlight))).1.items := by
        rw [held, inFlight_receive, receive_fst, items_retriesBehind, inFlight_of_stage hstage]
        simp only [tally_append, tally_nil, Nat.add_zero]
      rw [hheld, held]
      simp only [tally_append, admitted, List.map_nil, List.count_nil]
      omega

end Balance

end Pipeline

end TimeSeries
