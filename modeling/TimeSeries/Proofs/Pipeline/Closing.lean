import TimeSeries.Proofs.Pipeline.Order

/-!
# Closing a pipeline

A pipeline takes records while it is being closed, so it may not be closed before the queue has been
seen empty, and nothing may be taken after that. `Asks` says what a stage of the task goes with:
the stages behind the last look at the queue with a closed pipeline and an empty queue, those that
empty the queue with one that is draining. Every step keeps a pipeline `OnCourse`, so the lifecycle
only moves forward.

What closing leaves behind is then counted: a record that was accepted is queued, was dropped from
the queue or was sent, and what is given up at the end was in the last request.
-/

namespace TimeSeries

/-- The lifecycle stays what it is or moves one step forward. -/
def Lifecycle.Leads (l m : Lifecycle) : Prop :=
  m = l ∨ l = .accepting ∧ m = .draining ∨ l = .draining ∧ m = .closed

namespace Pipeline

/-- What a stage of the task asks of the pipeline. A task that broke down does nothing any more, so
nothing is asked. -/
def Asks (p : Pipeline) : Stage → Prop
  | .scheduling | .looking _ | .counting _ | .waiting _ | .collecting | .sending _ .batching =>
    p.lifecycle ≠ .closed
  | .draining | .settling | .sending _ .draining => p.lifecycle = .draining
  | .finishing | .discarding | .sending _ .final => p.lifecycle = .closed ∧ p.queue = []
  | .done => p.lifecycle = .closed ∧ p.queue = [] ∧ p.retries.items = []
  | .dead => True

def OnCourse (p : Pipeline) : Prop := p.Asks p.stage

theorem OnCourse.asks {p : Pipeline} (hp : p.OnCourse) {stage : Stage} (h : p.stage = stage) :
    p.Asks stage :=
  h ▸ hp

theorem ne_closed_of_admits? {p : Pipeline} {s : Submission} {item : Item}
    (h : p.admits? s = some item) : p.lifecycle ≠ .closed := by
  intro hclosed
  simp [admits?, hclosed] at h

/-- A stage that asks for an empty queue asks for a closed pipeline too. -/
theorem asks_of_open {p q : Pipeline} {stage : Stage} (hp : p.Asks stage)
    (hopen : p.lifecycle ≠ .closed)
    (hq : q.lifecycle = p.lifecycle ∨ p.lifecycle = .accepting ∧ q.lifecycle = .draining) :
    q.Asks stage := by
  have hdraining (h : p.lifecycle = .draining) : q.lifecycle = .draining := by
    rcases hq with hq | ⟨haccepting, -⟩
    · exact hq.trans h
    · exact absurd (haccepting.symm.trans h) (by decide)
  have hstill : q.lifecycle ≠ .closed := by
    rcases hq with hq | ⟨-, hq⟩
    · exact hq ▸ hopen
    · exact hq ▸ (by decide)
  cases stage with
  | draining => exact hdraining hp
  | settling => exact hdraining hp
  | finishing => exact absurd hp.1 hopen
  | discarding => exact absurd hp.1 hopen
  | done => exact absurd hp.1 hopen
  | dead => trivial
  | sending batch phase =>
      cases phase with
      | batching => exact hstill
      | draining => exact hdraining hp
      | final => exact absurd hp.1 hopen
  | _ => exact hstill

theorem onCourse_answer {p : Pipeline} {batch : List Pending} {phase : Phase}
    (hp : p.Asks (.sending batch phase)) (r : Reply) : (p.receive batch phase r).1.OnCourse := by
  rw [receive_fst]
  cases r with
  | breakdown => trivial
  | outcome o => cases phase <;> exact hp
  | fault e => cases phase <;> exact hp

theorem onCourse_of_turn {p q : Pipeline} {a : Action} {effects : List Effect}
    (h : Turn p a q effects) (hp : p.OnCourse) : q.OnCourse := by
  cases h with
  | accept hitem => exact asks_of_open (p := p) hp (ne_closed_of_admits? hitem) (Or.inl rfl)
  | refuse _ => exact hp
  | beginClose =>
      by_cases hopen : p.lifecycle = .accepting
      · exact asks_of_open (p := p) hp (hopen ▸ by decide) (Or.inr ⟨hopen, if_pos hopen⟩)
      · rw [if_neg hopen]
        exact hp
  | finishClose hend =>
      rcases hend with hend | hend
      · have hdone := hp.asks hend
        rw [← hdone.1]
        exact hp
      · simp [OnCourse, hend, Asks]
  | elapse => exact hp
  | wakeUp hstage _ => exact hp.asks hstage
  | expire hstage _ => exact hp.asks hstage
  | schedule hstage => exact hp.asks hstage
  | stay hstage _ => exact hp.asks hstage
  | leave hstage hopen =>
      have hclosed : p.lifecycle ≠ .closed := hp.asks hstage
      cases hlifecycle : p.lifecycle with
      | accepting => exact absurd hlifecycle hopen
      | draining => exact hlifecycle
      | closed => exact absurd hlifecycle hclosed
  | ready hstage _ => exact hp.asks hstage
  | rest hstage _ => exact hp.asks hstage
  | skip hstage _ _ => exact hp.asks hstage
  | flush hstage _ => exact hp.asks hstage
  | drain hstage _ => exact hp.asks hstage
  | drained hstage _ => exact hp.asks hstage
  | shut _ hempty => exact ⟨rfl, hempty⟩
  | resume hstage _ => exact hp.asks hstage
  | retry hstage _ => exact hp.asks hstage
  | pass hstage _ => exact hp.asks hstage
  | discard hstage =>
      have hfinal := hp.asks hstage
      exact ⟨hfinal.1, hfinal.2, rfl⟩
  | answer hstage => exact onCourse_answer (hp.asks hstage) _

/-- The lifecycle moves forward, unless the task broke down. -/
theorem lifecycle_leads {p q : Pipeline} {a : Action} {effects : List Effect}
    (h : Turn p a q effects) (hp : p.OnCourse) (hlive : p.stage ≠ .dead) :
    p.lifecycle.Leads q.lifecycle := by
  have same (hq : q.lifecycle = p.lifecycle) : p.lifecycle.Leads q.lifecycle := Or.inl hq
  cases h with
  | beginClose =>
      by_cases hopen : p.lifecycle = .accepting
      · exact Or.inr (Or.inl ⟨hopen, if_pos hopen⟩)
      · exact same (if_neg hopen)
  | finishClose hend =>
      have hdone := hp.asks (hend.resolve_right hlive)
      exact same hdone.1.symm
  | shut hstage _ => exact Or.inr (Or.inr ⟨hp.asks hstage, rfl⟩)
  | answer _ => exact same (by rw [receive_fst])
  | _ => exact same rfl

/-- When the task is done, nothing more happens. -/
theorem silent_of_done {p q : Pipeline} {a : Action} {effects : List Effect}
    (h : Turn p a q effects) (hp : p.OnCourse) (hdone : p.stage = .done) :
    q.stage = .done ∧ q.accepted = p.accepted ∧ effects = [] := by
  cases h with
  | accept hitem => exact absurd (hp.asks hdone).1 (ne_closed_of_admits? hitem)
  | refuse _ => exact ⟨hdone, rfl, rfl⟩
  | beginClose => exact ⟨hdone, rfl, rfl⟩
  | finishClose _ => exact ⟨hdone, rfl, rfl⟩
  | elapse => exact ⟨hdone, rfl, rfl⟩
  | _ => simp_all

theorem ended_of_finishClose {p q : Pipeline} {effects : List Effect}
    (h : Turn p .finishClose q effects) : p.stage = .done ∨ p.stage = .dead := by
  cases h with
  | finishClose hend => exact hend

theorem submit_eq_closed {p : Pipeline} (hclosed : p.lifecycle = .closed) {s : Submission}
    {item : Item} (h : p.encode s = .ok item) : p.submit s = .error .closed := by
  rw [submit.eq_def]
  split
  · next e => cases h
  · rw [if_pos hclosed]

/-- A record leaves the queue when it is sent or dropped, and what is accepted comes into the
queue. -/
theorem queue_goes_on {p q : Pipeline} {a : Action} {effects : List Effect}
    (h : Motion p a q effects) {k : Nat}
    (hk : k ∈ p.queue.map Pending.serial ∨ p.accepted ≤ k ∧ k < q.accepted) :
    (∃ batch ∈ Effect.requests effects, k ∈ batch.map Pending.serial) ∨
      k ∈ q.queue.map Pending.serial ∨ k ∈ (p.departing a .dropped).map Pending.serial := by
  have same (haccepted : q.accepted = p.accepted) (hqueue : q.queue = p.queue) :
      k ∈ q.queue.map Pending.serial := by
    rcases hk with hk | ⟨hle, hlt⟩
    · rwa [hqueue]
    · omega
  cases h with
  | @accept s item hitem =>
      have hdropped : p.departing (.submit s) .dropped = p.overflow := by
        simp [departing, hitem]
      have hmem : k ∈ (p.queue ++ [(⟨p.accepted, item, 0⟩ : Pending)]).map Pending.serial := by
        rw [List.map_append, List.mem_append]
        rcases hk with hk | ⟨hle, hlt⟩
        · exact Or.inl hk
        · have heq : k = p.accepted := Nat.le_antisymm (Nat.le_of_lt_succ hlt) hle
          exact Or.inr (List.mem_singleton.2 heq)
      rw [← overflow_append_queue_enqueue, List.map_append, List.mem_append] at hmem
      rw [hdropped]
      exact Or.inr hmem.symm
  | quiet _ _ hqueue _ _ haccepted _ => exact Or.inr (Or.inl (same haccepted hqueue))
  | @request n queued jitter phase _ _ _ _ =>
      have hmem : k ∈ p.queue.map Pending.serial := by
        rcases hk with hk | ⟨hle, hlt⟩
        · exact hk
        · exact absurd hlt (Nat.not_lt.2 hle)
      rw [← List.take_append_drop n p.queue, List.map_append, List.mem_append] at hmem
      rcases hmem with hmem | hmem
      · refine Or.inl ⟨p.retries.items ++ p.queue.take n, List.mem_singleton_self _, ?_⟩
        rw [List.map_append]
        exact List.mem_append_right _ hmem
      · exact Or.inr (Or.inl hmem)
  | discard _ => exact Or.inr (Or.inl (same rfl rfl))
  | answer _ => exact Or.inr (Or.inl (same (by rw [receive_fst]) (by rw [receive_fst])))

section Runs

variable {options : WriteOptions} {policy : BatchOptions} {history : List Transition}
  {p : Pipeline}

theorem onCourse_of_run (run : Run options policy history p) : p.OnCourse := by
  induction run with
  | start => simp [OnCourse, start, Asks]
  | step action _ hstep ih => exact onCourse_of_turn (step_turn hstep) ih

/-- A task whose requests are all answered does not break down. -/
theorem stage_ne_dead (run : Run options policy history p)
    (hanswers : ∀ t ∈ history, t.action ≠ .reply .breakdown) : p.stage ≠ .dead := by
  induction run with
  | start => simp [start]
  | @step history p q effects action run hstep ih =>
      have hlive := ih fun t ht => hanswers t (List.mem_append_left _ ht)
      have hreply : action ≠ .reply .breakdown := hanswers _ List.mem_concat_self
      cases step_turn hstep with
      | @answer batch phase r _ =>
          rw [receive_fst]
          cases r with
          | breakdown => exact absurd rfl hreply
          | outcome o => cases phase <;> simp [Reply.next, Phase.next]
          | fault e => cases phase <;> simp [Reply.next, Phase.next]
      | accept _ => exact hlive
      | refuse _ => exact hlive
      | beginClose => exact hlive
      | finishClose _ => exact hlive
      | elapse => exact hlive
      | _ => simp [inStage, send]

theorem serialsAt_left_concat (history : List Transition) (t : Transition) (p q : Pipeline)
    (fate : Fate) :
    serialsAt (history ++ [t]) q (.left fate) =
      serialsAt history p (.left fate) ++
        (t.before.departing t.action fate).map Pending.serial := by
  simp [serialsAt, recordsAt]

/-- A record that was accepted is queued, or it was dropped from the queue or sent. -/
theorem sent_or_queued_or_dropped (run : Run options policy history p) {k : Nat}
    (hk : k < p.accepted) :
    k ∈ sent history ∨ k ∈ p.queue.map Pending.serial ∨
      k ∈ serialsAt history p (.left .dropped) := by
  induction run with
  | start => exact absurd hk (Nat.not_lt_zero k)
  | @step history p q effects action _ hstep ih =>
      rw [serialsAt_left_concat history _ p, sent_append, List.mem_append, List.mem_append,
        mem_sent_singleton]
      have hbefore : k ∈ sent history ∨ k ∈ serialsAt history p (.left .dropped) ∨
          k ∈ p.queue.map Pending.serial ∨ p.accepted ≤ k ∧ k < q.accepted := by
        by_cases hold : k < p.accepted
        · rcases ih hold with hsent | hqueue | hdropped
          · exact Or.inl hsent
          · exact Or.inr (Or.inr (Or.inl hqueue))
          · exact Or.inr (Or.inl hdropped)
        · exact Or.inr (Or.inr (Or.inr ⟨Nat.not_lt.1 hold, hk⟩))
      rcases hbefore with hsent | hdropped | hhere
      · exact Or.inl (Or.inl hsent)
      · exact Or.inr (Or.inr (Or.inl hdropped))
      · rcases queue_goes_on (step_motion hstep) hhere with hrequest | hqueue | hdropped
        · exact Or.inl (Or.inr hrequest)
        · exact Or.inr (Or.inl hqueue)
        · exact Or.inr (Or.inr (Or.inr hdropped))

/-- What is given up at the end was in the last request, and then the task is done. -/
theorem mem_lastRequest_of_abandoned (run : Run options policy history p) {k : Nat}
    (hk : k ∈ serialsAt history p (.left .abandoned)) :
    p.stage = .done ∧ k ∈ (lastRequest history).map Pending.serial := by
  induction run with
  | start => exact absurd hk List.not_mem_nil
  | @step history p q effects action run hstep ih =>
      have hturn := step_turn hstep
      have hsilent (hnone : Effect.requests effects = []) :
          lastRequest (history ++ [⟨p, action, q, effects⟩]) = lastRequest history := by
        rw [lastRequest, requestsIn_append, requestsIn_singleton, hnone, List.append_nil,
          lastRequest]
      rw [serialsAt_left_concat history _ p, List.mem_append] at hk
      rcases hk with hk | hk
      · obtain ⟨hdone, hlast⟩ := ih hk
        obtain ⟨hstill, -, hnone⟩ := silent_of_done hturn (onCourse_of_run run) hdone
        rw [hsilent (by rw [hnone, Effect.requests_nil])]
        exact ⟨hstill, hlast⟩
      · -- only the step that discards lets records leave in this way
        cases hturn with
        | discard hstage =>
            obtain ⟨r, hr, rfl⟩ := List.mem_map.1 hk
            simp only [departing, hstage, if_true] at hr
            rw [hsilent rfl]
            exact ⟨rfl, (traced_of_run run).latest r (List.mem_append_left _ hr)⟩
        | _ => simp_all [departing]

/-- What follows when the task is done. -/
theorem silent_since_done {earlier later : List Transition} {t : Transition}
    (run : Run options policy (earlier ++ t :: later) p) (hdone : t.after.stage = .done) :
    p.stage = .done ∧ p.accepted = t.after.accepted ∧ ∀ u ∈ later, u.effects = [] := by
  induction later using List.reverseRecOn generalizing p with
  | nil =>
      obtain ⟨-, -, rfl⟩ := run_concat_iff.1 run
      exact ⟨hdone, rfl, fun u hu => absurd hu List.not_mem_nil⟩
  | append_singleton later u ih =>
      rw [show earlier ++ t :: (later ++ [u]) = (earlier ++ t :: later) ++ [u] by simp] at run
      obtain ⟨hbefore, hstep, rfl⟩ := run_concat_iff.1 run
      obtain ⟨hstill, haccepted, hnone⟩ := ih hbefore
      obtain ⟨hlast, hsame, heffects⟩ :=
        silent_of_done (step_turn hstep) (onCourse_of_run hbefore) hstill
      refine ⟨hlast, hsame.trans haccepted, fun v hv => ?_⟩
      rcases List.mem_append.1 hv with hv | hv
      · exact hnone v hv
      · rw [List.mem_singleton.1 hv, heffects]

/-- Closing is complete when all requests are answered. The lifecycle only moves forward. When
closing returns, nothing is queued, waits for another attempt or is on its way; every record that
was accepted has been sent or was dropped from the queue, and what is given up was in the last
request. From then on no request is sent and no event is told, and nothing is accepted any more. -/
theorem close_is_complete (run : Run options policy history p)
    (hanswers : ∀ t ∈ history, t.action ≠ .reply .breakdown) :
    (∀ t ∈ history, t.before.lifecycle.Leads t.after.lifecycle) ∧
      ∀ earlier t later, history = earlier ++ t :: later → t.action = .finishClose →
        (t.after.queue = [] ∧ t.after.retries.items = [] ∧ t.after.inFlight = [] ∧
            t.after.lifecycle = .closed) ∧
          (∀ k, k < (intake history).length →
            k ∈ sent earlier ∨ k ∈ serialsAt earlier t.before (.left .dropped)) ∧
          (∀ k ∈ serialsAt earlier t.before (.left .abandoned),
            k ∈ (lastRequest earlier).map Pending.serial) ∧
          (∀ u ∈ t :: later, u.effects = []) ∧
          p.lifecycle = .closed ∧
          ∀ s item, p.encode s = .ok item → p.submit s = .error .closed := by
  constructor
  · intro t ht
    obtain ⟨earlier, later, rfl⟩ := List.append_of_mem ht
    obtain ⟨hbefore, hstep⟩ := run_of_append_cons run
    exact lifecycle_leads (step_turn hstep) (onCourse_of_run hbefore)
      (stage_ne_dead hbefore fun u hu => hanswers u (List.mem_append_left _ hu))
  · rintro earlier t later rfl haction
    obtain ⟨hbefore, hstep⟩ := run_of_append_cons run
    have hturn := step_turn hstep
    have hlive := stage_ne_dead hbefore fun u hu => hanswers u (List.mem_append_left _ hu)
    -- closing returns when the task has ended, and it did not break down
    have hdone : t.before.stage = .done :=
      (ended_of_finishClose (haction ▸ hturn)).resolve_right hlive
    obtain ⟨hafter, hsame, heffects⟩ := silent_of_done hturn (onCourse_of_run hbefore) hdone
    obtain ⟨hlast, haccepted, hsilent⟩ := silent_since_done run hafter
    have hend := (onCourse_of_run (hbefore.step t.action hstep)).asks hafter
    have hclosed := ((onCourse_of_run run).asks hlast).1
    refine ⟨⟨hend.2.1, hend.2.2, by simp [inFlight, hafter], hend.1⟩, fun k hk => ?_,
      fun k hk => (mem_lastRequest_of_abandoned hbefore hk).2, ?_, hclosed,
      fun s item hitem => submit_eq_closed hclosed hitem⟩
    · rw [← accepted_eq_length_intake run, haccepted, hsame] at hk
      have hempty := ((onCourse_of_run hbefore).asks hdone).2.1
      rcases sent_or_queued_or_dropped hbefore hk with hsent | hqueue | hdropped
      · exact Or.inl hsent
      · rw [hempty] at hqueue
        exact absurd hqueue List.not_mem_nil
      · exact Or.inr hdropped
    · intro u hu
      rcases List.mem_cons.1 hu with rfl | hu
      · exact heffects
      · exact hsilent u hu

/-- A record is accepted while the pipeline is being closed, the attempts of both fail, and so does
the last request; both are given up, and then closing returns, twice. -/
theorem close_is_complete_of_race :
    ∃ history p earlier t later,
      Run ⟨"db", none, .one, .nanoseconds, by decide, by decide⟩
          ⟨1, 1000, 0, 3, 2, 5, by decide, by decide, by decide⟩ history p ∧
        (∀ t ∈ history, t.action ≠ .reply .breakdown) ∧
        (requestsIn history).map (fun batch => batch.map Pending.serial) =
          [[0], [0, 1], [0, 1]] ∧
        serialsAt history p (.left .abandoned) = [0, 1] ∧
        history = earlier ++ t :: later ∧ t.action = .finishClose ∧ later.length = 3 ∧
        (∀ u ∈ t :: later, u.effects = []) ∧
        ∀ s item, p.encode s = .ok item → p.submit s = .error .closed := by
  have htrace : trace? (Pipeline.start ⟨"db", none, .one, .nanoseconds, by decide, by decide⟩
    ⟨1, 1000, 0, 3, 2, 5, by decide, by decide, by decide⟩)
    ([.beginClose, .submit (.record "a f=1i"), .work 0, .work 0, .work 0,
        .submit (.record "b f=2i"), .reply (.outcome (.failure none "lost")), .work 0,
        .reply (.outcome (.failure (some 503) "busy")), .work 0, .work 0, .work 0,
        .reply (.fault .closed), .work 0] ++
      .finishClose :: [.submit (.record "c f=3i"), .beginClose, .finishClose]) = some (_, _) := rfl
  have run := run_of_trace? htrace
  have hactions := actions_of_trace? htrace
  have hanswers := action_ne_of_trace? (a := .reply .breakdown) htrace (by simp)
  obtain ⟨earlier, rest, hsplit, -, hrest⟩ := List.map_eq_append_iff.1 hactions
  obtain ⟨t, later, rfl, haction, hlater⟩ := List.map_eq_cons_iff.1 hrest
  have hclose := (close_is_complete run hanswers).2 earlier t later hsplit haction
  refine ⟨_, _, earlier, t, later, run, hanswers, rfl, rfl, hsplit, haction, ?_, hclose.2.2.2.1,
    hclose.2.2.2.2.2⟩
  rw [← List.length_map (f := Transition.action), hlater]
  rfl

end Runs

end Pipeline

end TimeSeries
