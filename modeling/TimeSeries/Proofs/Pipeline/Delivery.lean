import TimeSeries.Proofs.Pipeline.Report
import TimeSeries.Write.Delivery

/-!
# Everything is reported

The channel between a pipeline and its listeners is shut when the pipeline has ended, so it drops no
event, and closing returns when nothing waits on it. In between, every event that the pipeline told
waits or was delivered, in order, to the listeners of its kind (`Path.delivers`). A listener that is
registered before anything is handed in is told all events of the run, and those are read off its
requests and the replies to them.
-/

namespace TimeSeries

/-- What a move does to the pipeline. -/
def Move.action? : Move → Option Action
  | .act a => some a
  | .close => some .beginClose
  | .join => some .finishClose
  | _ => none

namespace Listener

/-- The listener behind some events. -/
def hearAll (l : Listener) (events : List WriteEvent) : Listener :=
  { l with told := l.told ++ events.filter l.wants }

theorem hearAll_nil (l : Listener) : l.hearAll [] = l := by
  rw [hearAll, List.filter_nil, List.append_nil]

theorem hearAll_hearAll (l : Listener) (earlier later : List WriteEvent) :
    (l.hearAll earlier).hearAll later = l.hearAll (earlier ++ later) := by
  rw [hearAll, hearAll, hearAll, List.filter_append, ← List.append_assoc]
  rfl

theorem told_hearAll_of_all {l : Listener} (h : l.kind = none) (events : List WriteEvent) :
    (l.hearAll events).told = l.told ++ events := by
  have hall : ∀ e ∈ events, l.wants e = true := fun e _ => by rw [wants, h]; rfl
  rw [hearAll, List.filter_eq_self.2 hall]

theorem hear_eq_hearAll (l : Listener) (e : WriteEvent) : l.hear e = l.hearAll [e] := by
  cases h : l.wants e <;> simp [hear, hearAll, h]

end Listener

namespace Pipeline

/-- The pipeline is closed and its task does nothing any more. -/
def Ended (p : Pipeline) : Prop := p.lifecycle = .closed ∧ (p.stage = .done ∨ p.stage = .dead)

theorem ended_of_turn {p q : Pipeline} {a : Action} {effects : List Effect}
    (h : Turn p a q effects) (hp : p.Ended) : q.Ended ∧ effects = [] := by
  obtain ⟨hclosed, hend⟩ := hp
  cases h with
  | accept hitem => simp [admits?, hclosed] at hitem
  | refuse _ => exact ⟨⟨hclosed, hend⟩, rfl⟩
  | beginClose => exact ⟨⟨by simp [hclosed], hend⟩, rfl⟩
  | finishClose _ => exact ⟨⟨rfl, hend⟩, rfl⟩
  | elapse => exact ⟨⟨hclosed, hend⟩, rfl⟩
  | _ => rcases hend with hend | hend <;> simp_all

theorem unanswered_of_ended {p : Pipeline} (h : p.Ended) : p.unanswered = [] := by
  rcases h.2 with hstage | hstage <;> simp [unanswered, hstage]

end Pipeline

namespace Writer

open Pipeline

/-- The transition of the pipeline that a move is, if it is one. -/
def moved (w : Writer) (m : Move) : List Transition :=
  (m.action?.bind fun a =>
    (w.pipeline.step a).map fun r => (⟨w.pipeline, a, r.1, r.2⟩ : Transition)).toList

/-- The ways from one writer to another, with the transitions of the pipeline on the way. -/
inductive Path (v : Writer) : List Transition → Writer → Prop where
  | refl : Path v [] v
  | step {history : List Transition} {w x : Writer} (m : Move) :
    Path v history w → w.step m = some x → Path v (history ++ w.moved m) x

/-- The ways in which a move can go. -/
inductive Stride (w : Writer) : List Transition → Writer → Prop where
  | act {a : Action} {q : Pipeline} {effects : List Effect} :
    w.pipeline.step a = some (q, effects) →
      Stride w [⟨w.pipeline, a, q, effects⟩]
        ⟨q, w.channel.emit (Effect.events effects), w.closing⟩
  | close {q : Pipeline} {effects : List Effect} :
    w.pipeline.step .beginClose = some (q, effects) →
      Stride w [⟨w.pipeline, .beginClose, q, effects⟩]
        ⟨q, w.channel.emit (Effect.events effects), .joining⟩
  | join {q : Pipeline} {effects : List Effect} :
    w.pipeline.step .finishClose = some (q, effects) →
      Stride w [⟨w.pipeline, .finishClose, q, effects⟩]
        ⟨q, w.channel.emit (Effect.events effects), .joined⟩
  | listen (kind : Option EventKind) : Stride w [] { w with channel := w.channel.listen kind }
  | dispatch {e : WriteEvent} {more : List WriteEvent} :
    w.channel.waiting = e :: more →
      Stride w []
        { w with
            channel :=
              { w.channel with
                  listeners := w.channel.listeners.map (·.hear e)
                  waiting := more } }
  | shut : w.closing = .joined →
      Stride w [] { w with channel := w.channel.shut, closing := .delivering }
  | finish : w.closing = .delivering → w.channel.waiting = [] →
      Stride w [] { w with closing := .returned }

theorem exists_of_act {w x : Writer} {a : Action} {closing : Closing}
    (h : w.act a closing = some x) :
    ∃ q effects, w.pipeline.step a = some (q, effects) ∧
      x = ⟨q, w.channel.emit (Effect.events effects), closing⟩ := by
  obtain ⟨⟨q, effects⟩, hstep, rfl⟩ := Option.map_eq_some_iff.1 h
  exact ⟨q, effects, hstep, rfl⟩

theorem moved_of_step {w : Writer} {m : Move} {a : Action} {q : Pipeline} {effects : List Effect}
    (hm : m.action? = some a) (h : w.pipeline.step a = some (q, effects)) :
    w.moved m = [⟨w.pipeline, a, q, effects⟩] := by
  simp [moved, hm, h]

theorem step_stride {w x : Writer} {m : Move} (h : w.step m = some x) :
    Stride w (w.moved m) x := by
  cases m with
  | act a =>
      have hact : w.act a w.closing = some x := by
        cases a with
        | finishClose => cases h
        | _ => exact h
      obtain ⟨q, effects, hstep, rfl⟩ := exists_of_act hact
      rw [moved_of_step rfl hstep]
      exact .act hstep
  | listen kind =>
      obtain rfl := Option.some.inj h
      exact .listen kind
  | dispatch =>
      obtain ⟨c, hc, rfl⟩ := Option.map_eq_some_iff.1 h
      rw [Channel.dispatch] at hc
      split at hc
      · cases hc
      · next e more hwaiting =>
          obtain rfl := Option.some.inj hc
          exact .dispatch hwaiting
  | close =>
      simp only [step] at h
      split at h
      · obtain ⟨q, effects, hstep, rfl⟩ := exists_of_act h
        rw [moved_of_step rfl hstep]
        exact .close hstep
      · cases h
  | join =>
      simp only [step] at h
      split at h
      · obtain ⟨q, effects, hstep, rfl⟩ := exists_of_act h
        rw [moved_of_step rfl hstep]
        exact .join hstep
      · cases h
  | shut =>
      simp only [step] at h
      split at h
      · next hjoined =>
          obtain rfl := Option.some.inj h
          exact .shut hjoined
      · cases h
  | finish =>
      simp only [step] at h
      split at h
      · next hdelivered =>
          obtain rfl := Option.some.inj h
          exact .finish hdelivered.1 hdelivered.2
      · cases h

/-- The channel is shut behind the end of the pipeline, and nothing waits when closing has
returned. -/
structure Sound (w : Writer) : Prop where
  ended : w.closing = .joined ∨ w.channel.isOpen = false → w.pipeline.Ended
  shut : w.closing = .delivering ∨ w.closing = .returned → w.channel.isOpen = false
  empty : w.closing = .returned → w.channel.waiting = []

theorem isOpen_emit (c : Channel) (events : List WriteEvent) :
    (c.emit events).isOpen = c.isOpen := by
  rw [Channel.emit]
  split <;> rfl

theorem listeners_emit (c : Channel) (events : List WriteEvent) :
    (c.emit events).listeners = c.listeners := by
  rw [Channel.emit]
  split <;> rfl

theorem waiting_emit_of_shut {c : Channel} (h : c.isOpen = false) (events : List WriteEvent) :
    (c.emit events).waiting = c.waiting := by
  rw [Channel.emit, h]
  rfl

/-- No event of the pipeline is dropped. -/
theorem Sound.waiting_emit {w : Writer} (h : w.Sound) {a : Action} {q : Pipeline}
    {effects : List Effect} (hstep : w.pipeline.step a = some (q, effects)) :
    (w.channel.emit (Effect.events effects)).waiting =
      w.channel.waiting ++ Effect.events effects := by
  cases hopen : w.channel.isOpen with
  | true => rw [Channel.emit, if_pos hopen]
  | false =>
      obtain ⟨-, rfl⟩ := ended_of_turn (step_turn hstep) (h.ended (Or.inr hopen))
      rw [waiting_emit_of_shut hopen]
      exact (List.append_nil _).symm

theorem sound_of_stride {w x : Writer} {history : List Transition} (h : Stride w history x)
    (hw : w.Sound) : x.Sound := by
  cases h with
  | act hstep =>
      refine ⟨fun hx => ?_, fun hx => ?_, fun hx => ?_⟩
      · rw [isOpen_emit] at hx
        exact (ended_of_turn (step_turn hstep) (hw.ended hx)).1
      · rw [isOpen_emit]
        exact hw.shut hx
      · rw [waiting_emit_of_shut (hw.shut (Or.inr hx))]
        exact hw.empty hx
  | close hstep =>
      refine ⟨fun hx => ?_, by simp, by simp⟩
      rw [isOpen_emit] at hx
      exact (ended_of_turn (step_turn hstep) (hw.ended (Or.inr (hx.resolve_left (by simp))))).1
  | join hstep =>
      refine ⟨fun _ => ?_, by simp, by simp⟩
      cases step_turn hstep with
      | finishClose hend => exact ⟨rfl, hend⟩
  | listen kind => exact ⟨hw.ended, hw.shut, hw.empty⟩
  | dispatch hwaiting =>
      refine ⟨hw.ended, hw.shut, fun hx => ?_⟩
      rw [hw.empty hx] at hwaiting
      cases hwaiting
  | shut hjoined => exact ⟨fun _ => hw.ended (Or.inl hjoined), fun _ => rfl, by simp⟩
  | finish hdelivering hnone =>
      exact ⟨fun hx => hw.ended (Or.inr (hx.resolve_left (by simp))),
        fun _ => hw.shut (Or.inl hdelivering), fun _ => hnone⟩

namespace Path

variable {v w : Writer} {history : List Transition}

theorem sound (h : Path v history w) (hv : v.Sound) : w.Sound := by
  induction h with
  | refl => exact hv
  | step m _ hstep ih => exact sound_of_stride (step_stride hstep) ih

theorem trans {u : Writer} {earlier : List Transition} (hu : Path u earlier v)
    (h : Path v history w) : Path u (earlier ++ history) w := by
  induction h with
  | refl => rwa [List.append_nil]
  | step m _ hstep ih =>
      rw [← List.append_assoc]
      exact ih.step m hstep

theorem single {m : Move} (h : v.step m = some w) : Path v (v.moved m) w := by
  simpa using refl.step m h

end Path

theorem eventsIn_append (earlier later : List Transition) :
    eventsIn (earlier ++ later) = eventsIn earlier ++ eventsIn later :=
  List.flatMap_append

theorem eventsIn_singleton (t : Transition) : eventsIn [t] = Effect.events t.effects := by
  rw [eventsIn, List.flatMap_cons, List.flatMap_nil, List.append_nil]

/-- What was put on the channel was delivered or waits, and listeners were told of what was
delivered. -/
def Delivers (v : Writer) (history : List Transition) (w : Writer) : Prop :=
  ∃ delivered, v.channel.waiting ++ eventsIn history = delivered ++ w.channel.waiting ∧
    ∀ (i : Nat) (l : Listener), v.channel.listeners[i]? = some l →
      w.channel.listeners[i]? = some (l.hearAll delivered)

theorem Delivers.trans {u v w : Writer} {earlier later : List Transition}
    (hu : Delivers u earlier v) (hv : Delivers v later w) : Delivers u (earlier ++ later) w := by
  obtain ⟨first, hfirst, hears⟩ := hu
  obtain ⟨second, hsecond, hearsMore⟩ := hv
  refine ⟨first ++ second, ?_, fun i l hl => ?_⟩
  · rw [eventsIn_append, ← List.append_assoc, hfirst, List.append_assoc, hsecond,
      List.append_assoc]
  · rw [hearsMore i _ (hears i l hl), Listener.hearAll_hearAll]

/-- A move that delivers nothing. -/
theorem delivers_of_waiting {w x : Writer} {history : List Transition}
    (hwaiting : x.channel.waiting = w.channel.waiting ++ eventsIn history)
    (hlisteners : w.channel.listeners <+: x.channel.listeners) : Delivers w history x := by
  refine ⟨[], hwaiting.symm, fun i l hl => ?_⟩
  obtain ⟨more, hmore⟩ := hlisteners
  have hlt := (List.getElem?_eq_some_iff.1 hl).1
  rw [Listener.hearAll_nil, ← hmore, List.getElem?_append_left hlt, hl]

theorem delivers_of_stride {w x : Writer} {history : List Transition} (h : Stride w history x)
    (hw : w.Sound) : Delivers w history x := by
  -- the pipeline tells more, which all goes on the channel
  have emits {a : Action} {q : Pipeline} {effects : List Effect} (closing : Closing)
      (hstep : w.pipeline.step a = some (q, effects)) :
      Delivers w [⟨w.pipeline, a, q, effects⟩]
        ⟨q, w.channel.emit (Effect.events effects), closing⟩ := by
    refine delivers_of_waiting ?_ ?_
    · rw [hw.waiting_emit hstep, eventsIn_singleton]
    · exact (listeners_emit w.channel (Effect.events effects)).symm ▸ List.prefix_rfl
  cases h with
  | act hstep => exact emits _ hstep
  | close hstep => exact emits _ hstep
  | join hstep => exact emits _ hstep
  | listen kind => exact delivers_of_waiting (List.append_nil _).symm (List.prefix_append _ _)
  | @dispatch e more hwaiting =>
      refine ⟨[e], ?_, fun i l hl => ?_⟩
      · rw [hwaiting]
        exact List.append_nil _
      · simp only [List.getElem?_map, hl, Option.map_some, Listener.hear_eq_hearAll]
  | shut _ => exact delivers_of_waiting (List.append_nil _).symm List.prefix_rfl
  | finish _ _ => exact delivers_of_waiting (List.append_nil _).symm List.prefix_rfl

theorem Path.delivers {v w : Writer} {history : List Transition} (h : Path v history w)
    (hv : v.Sound) : Delivers v history w := by
  induction h with
  | refl => exact delivers_of_waiting (List.append_nil _).symm List.prefix_rfl
  | step m hpath hstep ih =>
      exact ih.trans (delivers_of_stride (step_stride hstep) (hpath.sound hv))

section Runs

variable {options : WriteOptions} {policy : BatchOptions} {history : List Transition} {w : Writer}

theorem sound_start (options : WriteOptions) (policy : BatchOptions) :
    (start options policy).Sound :=
  ⟨by simp [start], by simp [start], by simp [start]⟩

theorem run_of_path (h : Path (start options policy) history w) :
    Run options policy history w.pipeline := by
  induction h with
  | refl => exact Run.start
  | @step history w x m _ hstep ih =>
      have hstride := step_stride hstep
      generalize w.moved m = moved at hstride ⊢
      cases hstride with
      | act hpipeline => exact ih.step _ hpipeline
      | close hpipeline => exact ih.step _ hpipeline
      | join hpipeline => exact ih.step _ hpipeline
      | _ => rwa [List.append_nil]

/-- When closing has returned, a listener for all kinds that was registered before anything was
handed in was told every event of the run. -/
theorem told_eq_eventsIn {before after : List Transition} {v w x : Writer}
    (hbefore : Path (start options policy) before v)
    (hquiet : ∀ t ∈ before, ∀ s, t.action ≠ .submit s) (hlisten : v.step (.listen none) = some w)
    (hafter : Path w after x) (hreturned : x.closing = .returned) :
    ∃ l, x.channel.listeners[v.channel.listeners.length]? = some l ∧
      l.told = eventsIn (before ++ after) := by
  have hv := hbefore.sound (sound_start options policy)
  have hw := sound_of_stride (step_stride hlisten) hv
  have hsilent := eventsIn_eq_nil_of_quiet (run_of_path hbefore) hquiet
  -- nothing waits when the listener is registered
  have hwaiting : v.channel.waiting = [] := by
    obtain ⟨delivered, hdelivered, -⟩ := hbefore.delivers (sound_start options policy)
    rw [hsilent] at hdelivered
    exact (List.append_eq_nil_iff.1 hdelivered.symm).2
  obtain ⟨delivered, hdelivered, hears⟩ := hafter.delivers hw
  obtain rfl : { v with channel := v.channel.listen none } = w := Option.some.inj hlisten
  refine ⟨_, hears _ { kind := none } (by simp [Channel.listen]), ?_⟩
  calc
    _ = delivered := Listener.told_hearAll_of_all rfl delivered
    _ = v.channel.waiting ++ eventsIn after := by
      rw [(hafter.sound hw).empty hreturned, List.append_nil] at hdelivered
      exact hdelivered.symm
    _ = eventsIn (before ++ after) := by rw [hwaiting, eventsIn_append, hsilent]

/-- Every call of the network is reported, and in order. When closing has returned, a listener for
all kinds that was registered before anything was handed in was told every event of the run. Apart
from the drops, these are the reports on the requests, one after the other in the order in which
they were sent: first the outcome and then what it means for the batch, or the reason why there is
none. And there is one event for each record that a submission drops from a full queue, which is the
oldest one of the queue. -/
theorem requests_are_reported {before after : List Transition} {v w x : Writer}
    (hbefore : Path (start options policy) before v)
    (hquiet : ∀ t ∈ before, ∀ s, t.action ≠ .submit s) (hlisten : v.step (.listen none) = some w)
    (hafter : Path w after x) (hreturned : x.closing = .returned) :
    ∃ l, x.channel.listeners[v.channel.listeners.length]? = some l ∧
      l.told = eventsIn (before ++ after) ∧
      l.told.filter (fun e => !e.isDrop) =
        (exchanges (before ++ after)).flatMap (report options) ∧
      (exchanges (before ++ after)).map Prod.fst = requestsIn (before ++ after) ∧
      l.told.filter WriteEvent.isDrop = (before ++ after).flatMap Transition.drops ∧
      ∀ t ∈ before ++ after,
        t.drops = [] ∧ (∀ s, t.action = .submit s → t.before.queue <+: t.after.queue) ∨
          ∃ s r rest, t.action = .submit s ∧ policy.queueCapacity ≤ t.before.queue.length ∧
            t.before.queue = r :: rest ∧ rest <+: t.after.queue ∧
            t.drops = [⟨[r.item], options, .dropped t.after.queue.length⟩] := by
  obtain ⟨l, hl, htold⟩ := told_eq_eventsIn hbefore hquiet hlisten hafter hreturned
  have hw : Path (start options policy) before w := by
    simpa [moved, Move.action?] using hbefore.step (.listen none) hlisten
  have hpath := hw.trans hafter
  have run := run_of_path hpath
  have hsound := hpath.sound (sound_start options policy)
  have hended := hsound.ended (Or.inr (hsound.shut (Or.inr hreturned)))
  refine ⟨l, hl, htold, ?_, ?_, ?_, fun t ht => ?_⟩
  · rw [htold, filter_eventsIn run]
  · rw [requestsIn_eq_exchanges run, unanswered_of_ended hended, List.append_nil]
  · rw [htold, filter_isDrop_eventsIn run]
  · obtain ⟨hoptions, hpolicy⟩ := setup_of_mem_run run ht
    rw [← hoptions, ← hpolicy]
    exact drops_of_turn (step_turn (step_of_mem_run run ht))

/-- The way of some moves, one after the other, if all of them are possible. -/
def follow? (w : Writer) : List Move → Option (List Transition × Writer)
  | [] => some ([], w)
  | m :: moves =>
    (w.step m).bind fun x => (follow? x moves).map fun r => (w.moved m ++ r.1, r.2)

theorem path_of_follow? {v : Writer} {moves : List Move}
    (h : v.follow? moves = some (history, w)) : Path v history w := by
  induction moves generalizing v history with
  | nil =>
      obtain ⟨rfl, rfl⟩ : [] = history ∧ v = w := by simpa [follow?] using h
      exact .refl
  | cons m moves ih =>
      obtain ⟨x, hstep, hmap⟩ := Option.bind_eq_some_iff.1 h
      obtain ⟨⟨rest, last⟩, hrest, heq⟩ := Option.map_eq_some_iff.1 hmap
      obtain ⟨rfl, rfl⟩ := Prod.mk.inj heq
      exact (Path.single hstep).trans (ih hrest)

/-- Options and a policy for batches of two records, out of a queue of two. -/
def sampleSetup : WriteOptions × BatchOptions :=
  (⟨"db", none, .one, .nanoseconds, by decide, by decide⟩,
    ⟨2, 1000, 0, 3, 2, 5, by decide, by decide, by decide⟩)

/-- A writer with a listener for what is stored, which has set the time of its first batch. -/
def sampleWriter : Writer :=
  ⟨{ Pipeline.start sampleSetup.1 sampleSetup.2 with stage := .looking 1000 },
    { listeners := [{ kind := some .stored }] }, .idle⟩

/-- A full queue drops a record, the server rejects one of the two others, then there is no answer,
and the last attempt is a success. -/
def sampleMoves : List Move :=
  [.act (.submit (.record "a f=1i")), .act (.submit (.record "b f=2i")),
    .act (.submit (.record "c f=3i")), .act (.work 0), .act (.work 0), .dispatch, .act (.work 0),
    .act (.reply (.outcome (.rejected [1] "no"))), .close, .act (.submit (.record "d f=4i")),
    .act (.work 0), .act (.work 0), .act (.work 0), .act (.reply (.fault .closed)), .dispatch,
    .act (.work 0), .act (.work 0), .act (.work 0), .act (.reply (.outcome .success)),
    .act (.work 0), .join, .dispatch, .shut, .dispatch, .dispatch, .dispatch, .finish]

/-- The run of these moves, of which a second listener, for all kinds, was told. -/
theorem requests_are_reported_of_failures :
    ∃ before after v w x l,
      Path (start sampleSetup.1 sampleSetup.2) before v ∧
        (∀ t ∈ before, ∀ s, t.action ≠ .submit s) ∧ v.step (.listen none) = some w ∧
        Path w after x ∧ x.closing = .returned ∧ x.channel.listeners[1]? = some l ∧
        l.told.map (fun e => (e.detail.kind, e.items.map Item.line)) =
          [(.dropped, ["a f=1i"]), (.answered, ["b f=2i", "c f=3i"]), (.rejected, ["c f=3i"]),
            (.unhandled, ["c f=3i", "d f=4i"]), (.answered, ["c f=3i", "d f=4i"]),
            (.stored, ["c f=3i", "d f=4i"])] ∧
        l.told.filter (fun e => !e.isDrop) =
          (exchanges (before ++ after)).flatMap (report sampleSetup.1) := by
  have hbefore := path_of_follow? (show (start sampleSetup.1 sampleSetup.2).follow?
    [.listen (some .stored), .act (.work 0)] = some (_, sampleWriter) from rfl)
  have hend : (follow? { sampleWriter with channel := sampleWriter.channel.listen none }
      sampleMoves).map (fun r => (r.2.closing, r.2.channel.listeners[1]?.map fun l =>
        l.told.map fun e => (e.detail.kind, e.items.map Item.line))) =
      some (.returned, some
        [(.dropped, ["a f=1i"]), (.answered, ["b f=2i", "c f=3i"]), (.rejected, ["c f=3i"]),
          (.unhandled, ["c f=3i", "d f=4i"]), (.answered, ["c f=3i", "d f=4i"]),
          (.stored, ["c f=3i", "d f=4i"])]) := by decide +kernel
  obtain ⟨⟨after, x⟩, hfollow, hfacts⟩ := Option.map_eq_some_iff.1 hend
  obtain ⟨hreturned, hheard⟩ := Prod.mk.inj hfacts
  obtain ⟨l, hl, htold⟩ := Option.map_eq_some_iff.1 hheard
  have hquiet : ∀ t ∈ [(⟨Pipeline.start sampleSetup.1 sampleSetup.2, .work 0,
      sampleWriter.pipeline, []⟩ : Transition)], ∀ s, t.action ≠ .submit s := fun t ht s => by
    rw [List.mem_singleton.1 ht]
    exact nofun
  have hafter := path_of_follow? hfollow
  obtain ⟨l', hl', -, hreports, -⟩ :=
    requests_are_reported hbefore hquiet rfl hafter hreturned
  obtain rfl : l = l' := Option.some.inj (hl.symm.trans hl')
  exact ⟨_, after, sampleWriter, _, x, l, hbefore, hquiet, rfl, hafter, hreturned, hl, htold,
    hreports⟩

end Runs

end Writer

end TimeSeries
