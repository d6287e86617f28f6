import Mathlib.Data.List.Nodup
import TimeSeries.Proofs.Pipeline.Accounting

/-!
# Every accepted record is in one place

A record that a run accepted is in one of ten places: it waits in the queue or in the retry buffer,
it is on its way, or it left with one of seven fates. It is in exactly one of them and there only
once, a record that left is never requested again, and a submission that is refused leaves no trace.

The places are joined to one list, `everywhere`. The balance of single steps makes the labels of
this list a permutation of the numbered items that were accepted (`labels_everywhere_perm`), and the
rest follows from that.
-/

namespace TimeSeries

/-- Where a record that was accepted can be. -/
inductive Place where
  | queue
  | retries
  | flight
  | left (fate : Fate)
deriving DecidableEq

def Place.all : List Place := [.queue, .retries, .flight] ++ Fate.all.map Place.left

theorem Place.mem_all (place : Place) : place ∈ Place.all := by
  cases place with
  | left fate => exact List.mem_append_right _ (List.mem_map_of_mem fate.mem_all)
  | _ => simp [Place.all]

theorem Place.nodup_all : Place.all.Nodup := by
  decide

/-- An element that occurs once in joined lists occurs in one of them only. -/
theorem exists_of_count_flatMap_eq_one {α β : Type} [DecidableEq β] {f : α → List β} {b : β}
    {l : List α} (hl : l.Nodup) (h : (l.flatMap f).count b = 1) :
    ∃ a, (f a).count b = 1 ∧ ∀ c ∈ l, c ≠ a → b ∉ f c := by
  induction l with
  | nil => simp at h
  | cons a l ih =>
      obtain ⟨ha, hl⟩ := List.nodup_cons.1 hl
      rw [List.flatMap_cons, List.count_append] at h
      by_cases hmem : b ∈ f a
      · have hpos := List.count_pos_iff.2 hmem
        have hrest : b ∉ l.flatMap f := List.count_eq_zero.1 (by omega)
        refine ⟨a, by omega, fun c hc hca hb => ?_⟩
        rcases List.mem_cons.1 hc with rfl | hc
        · exact hca rfl
        · exact hrest (List.mem_flatMap.2 ⟨c, hc, hb⟩)
      · have hzero := List.count_eq_zero.2 hmem
        obtain ⟨d, hd, hothers⟩ := ih hl (by omega)
        refine ⟨d, hd, fun c hc hcd => ?_⟩
        rcases List.mem_cons.1 hc with rfl | hc
        · exact hmem
        · exact hothers c hc hcd

namespace Pipeline

/-- The items that were accepted, in order; the number of a record is its place in this list. -/
def intake (history : List Transition) : List Item :=
  history.flatMap fun t => t.before.admitted t.action

/-- The records at a place behind a history that has led to a state. -/
def recordsAt (history : List Transition) (p : Pipeline) : Place → List Pending
  | .queue => p.queue
  | .retries => p.retries.items
  | .flight => p.inFlight
  | .left fate => history.flatMap fun t => t.before.departing t.action fate

def serialsAt (history : List Transition) (p : Pipeline) (place : Place) : List Nat :=
  (recordsAt history p place).map Pending.serial

def everywhere (history : List Transition) (p : Pipeline) : List Pending :=
  Place.all.flatMap (recordsAt history p)

theorem length_intake_concat (history : List Transition) (t : Transition) :
    (intake (history ++ [t])).length =
      (intake history).length + (t.before.admitted t.action).length := by
  simp [intake]

theorem admitted_eq_nil_or_singleton (p : Pipeline) (a : Action) :
    p.admitted a = [] ∨ ∃ item, p.admitted a = [item] := by
  cases a with
  | submit s => cases h : p.admits? s <;> simp [admitted, h]
  | _ => exact Or.inl rfl

theorem accepted_of_motion {p q : Pipeline} {a : Action} {effects : List Effect}
    (h : Motion p a q effects) : q.accepted = p.accepted + (p.admitted a).length := by
  cases h with
  | accept hitem => simp [enqueue, admitted, hitem]
  | quiet _ _ _ _ _ haccepted hidle =>
      rw [haccepted, admitted_of_idle hidle, List.length_nil, Nat.add_zero]
  | request _ _ _ _ => rfl
  | discard _ => rfl
  | answer _ =>
      rw [receive_fst]
      rfl

theorem options_of_motion {p q : Pipeline} {a : Action} {effects : List Effect}
    (h : Motion p a q effects) : q.options = p.options := by
  cases h with
  | accept _ => rfl
  | quiet hoptions => exact hoptions
  | request _ _ _ _ => rfl
  | discard _ => rfl
  | answer _ => rw [receive_fst]

theorem policy_of_motion {p q : Pipeline} {a : Action} {effects : List Effect}
    (h : Motion p a q effects) : q.policy = p.policy := by
  cases h with
  | accept _ => rfl
  | quiet _ hpolicy => exact hpolicy
  | request _ _ _ _ => rfl
  | discard _ => rfl
  | answer _ => rw [receive_fst]

section Runs

variable {options : WriteOptions} {policy : BatchOptions} {history : List Transition}
  {p : Pipeline}

theorem options_of_run (run : Run options policy history p) : p.options = options := by
  induction run with
  | start => rfl
  | step action _ hstep ih => exact (options_of_motion (step_motion hstep)).trans ih

theorem policy_of_run (run : Run options policy history p) : p.policy = policy := by
  induction run with
  | start => rfl
  | step action _ hstep ih => exact (policy_of_motion (step_motion hstep)).trans ih

theorem accepted_eq_length_intake (run : Run options policy history p) :
    p.accepted = (intake history).length := by
  induction run with
  | start => rfl
  | step action _ hstep ih =>
      rw [accepted_of_motion (step_motion hstep), length_intake_concat, ih]

theorem tally_flatMap_append {α : Type} (x : Item × Nat) (f g : α → List Pending) (l : List α) :
    tally x (l.flatMap fun a => f a ++ g a) = tally x (l.flatMap f) + tally x (l.flatMap g) := by
  induction l with
  | nil => rfl
  | cons a l ih =>
      simp only [List.flatMap_cons, tally_append]
      omega

theorem tally_everywhere_eq (x : Item × Nat) (history : List Transition) (p : Pipeline) :
    tally x (everywhere history p) =
      tally x p.held + tally x (Fate.all.flatMap fun fate => recordsAt history p (.left fate)) := by
  simp only [everywhere, Place.all, List.flatMap_append, List.flatMap_cons, List.flatMap_nil,
    List.flatMap_map, tally_append, tally_nil, held, recordsAt]
  omega

/-- Every item that was accepted is somewhere, under its number and only once. -/
theorem tally_everywhere (x : Item × Nat) (run : Run options policy history p) :
    tally x (everywhere history p) = (intake history).zipIdx.count x := by
  induction run with
  | start => rfl
  | @step history p q effects action run hstep ih =>
      rw [tally_everywhere_eq] at ih
      have hbalance := tally_step x (step_motion hstep)
      have hleft := tally_flatMap_append x
        (fun fate => recordsAt history p (.left fate)) (p.departing action) Fate.all
      have hsplit : (Fate.all.flatMap fun fate =>
          recordsAt (history ++ [⟨p, action, q, effects⟩]) q (.left fate)) =
          Fate.all.flatMap fun fate =>
            recordsAt history p (.left fate) ++ p.departing action fate := by
        simp [recordsAt]
      have haccepted : (intake (history ++ [⟨p, action, q, effects⟩])).zipIdx =
          (intake history).zipIdx ++
            (p.admitted action).map fun item => (item, p.accepted) := by
        rw [accepted_eq_length_intake run]
        rcases admitted_eq_nil_or_singleton p action with h | ⟨item, h⟩ <;>
          simp [intake, h, List.zipIdx_append]
      rw [tally_everywhere_eq, hsplit, hleft, haccepted, List.count_append, ← ih]
      change _ + (_ + tally x (p.leaving action)) = _
      omega

theorem labels_everywhere_perm (run : Run options policy history p) :
    ((everywhere history p).map Pending.label).Perm (intake history).zipIdx := by
  rw [List.perm_iff_count]
  intro x
  rw [← tally_eq_count, tally_everywhere x run]

theorem serials_everywhere_perm (run : Run options policy history p) :
    ((everywhere history p).map Pending.serial).Perm (List.range (intake history).length) := by
  have h := (labels_everywhere_perm run).map Prod.snd
  rw [List.map_map, List.zipIdx_map_snd, ← List.range_eq_range'] at h
  exact h

theorem mem_everywhere {place : Place} {r : Pending} (h : r ∈ recordsAt history p place) :
    r ∈ everywhere history p :=
  List.mem_flatMap.2 ⟨place, place.mem_all, h⟩

theorem serial_lt_of_mem (run : Run options policy history p) {place : Place} {r : Pending}
    (h : r ∈ recordsAt history p place) : r.serial < (intake history).length :=
  List.mem_range.1 ((serials_everywhere_perm run).mem_iff.1
    (List.mem_map_of_mem (mem_everywhere h)))

theorem getElem?_intake_of_mem (run : Run options policy history p) {place : Place}
    {r : Pending} (h : r ∈ recordsAt history p place) :
    (intake history)[r.serial]? = some r.item := by
  have hlabel : r.label ∈ (intake history).zipIdx :=
    (labels_everywhere_perm run).mem_iff.1 (List.mem_map_of_mem (mem_everywhere h))
  exact List.mem_zipIdx_iff_getElem?.1 hlabel

theorem exists_place (run : Run options policy history p) {k : Nat}
    (hk : k < (intake history).length) :
    ∃ place, (serialsAt history p place).count k = 1 ∧
      ∀ other, other ≠ place → k ∉ serialsAt history p other := by
  have hcount : (Place.all.flatMap (serialsAt history p)).count k = 1 := by
    have hserials : Place.all.flatMap (serialsAt history p) =
        (everywhere history p).map Pending.serial := by
      rw [everywhere, List.map_flatMap]
      rfl
    rw [hserials, (serials_everywhere_perm run).count_eq]
    exact List.count_eq_one_of_mem List.nodup_range (List.mem_range.2 hk)
  obtain ⟨place, hplace, hothers⟩ := exists_of_count_flatMap_eq_one Place.nodup_all hcount
  exact ⟨place, hplace, fun other hother => hothers other other.mem_all hother⟩

theorem place_unique (run : Run options policy history p) {place other : Place} {r s : Pending}
    (hr : r ∈ recordsAt history p place) (hs : s ∈ recordsAt history p other)
    (hserial : r.serial = s.serial) : place = other := by
  obtain ⟨only, -, hothers⟩ := exists_place run (serial_lt_of_mem run hr)
  have hplace : place = only := by
    by_contra hne
    exact hothers place hne (List.mem_map_of_mem hr)
  have hother : other = only := by
    by_contra hne
    exact hothers other hne (hserial ▸ List.mem_map_of_mem hs)
  rw [hplace, hother]

/-- A record that left is in no later request. -/
theorem serial_not_mem_later_request {earlier later : List Transition} {t u : Transition}
    {fate : Fate} {r : Pending} {batch : List Pending}
    (run : Run options policy (earlier ++ t :: later) p)
    (hr : r ∈ t.before.departing t.action fate) (hu : u ∈ later)
    (hbatch : batch ∈ Effect.requests u.effects) : r.serial ∉ batch.map Pending.serial := by
  intro hserial
  obtain ⟨s, hs, hrs⟩ := List.mem_map.1 hserial
  obtain ⟨between, last, rfl⟩ := List.append_of_mem hu
  have hcut : earlier ++ t :: (between ++ u :: last) = (earlier ++ t :: between) ++ u :: last := by
    simp
  rw [hcut] at run
  obtain ⟨hbefore, hstep⟩ := run_of_append_cons run
  have hafter := hbefore.step u.action hstep
  have hflight : u.after.inFlight = batch := inFlight_of_mem_requests (step_motion hstep) hbatch
  have hleft : r ∈ recordsAt (earlier ++ t :: between ++ [u]) u.after (.left fate) :=
    List.mem_flatMap.2 ⟨t, by simp, hr⟩
  have hway : s ∈ recordsAt (earlier ++ t :: between ++ [u]) u.after .flight := by
    rw [recordsAt, hflight]
    exact hs
  exact Place.noConfusion (place_unique hafter hleft hway hrs.symm)

theorem recordsAt_lost_eq_nil (h : ∀ t ∈ history, t.action ≠ .reply .breakdown) :
    recordsAt history p (.left .lost) = [] := by
  refine List.flatMap_eq_nil_iff.2 fun t ht => ?_
  have hreply := h t ht
  cases haction : t.action with
  | reply r =>
      cases r with
      | breakdown => exact absurd haction hreply
      | outcome o => rfl
      | fault e => rfl
  | _ => rfl

theorem admitted_of_submit_ok {s : Submission} {r : Pipeline × List Effect}
    (h : p.submit s = .ok r) :
    ∃ item, p.admitted (.submit s) = [item] ∧ r = p.enqueue item := by
  obtain ⟨item, hitem, hr⟩ := submit_eq_ok_iff.1 h
  exact ⟨item, by simp [admitted, hitem], hr⟩

theorem admitted_of_submit_error {s : Submission} {e : Error} (h : p.submit s = .error e) :
    p.admitted (.submit s) = [] := by
  cases hitem : p.admits? s with
  | none => simp [admitted, hitem]
  | some item =>
      have hok := submit_eq_ok_iff.2 ⟨item, hitem, rfl⟩
      rw [h] at hok
      cases hok

/-- Records are conserved. Behind every run each record that was accepted is at exactly one place,
and there once; whatever is at a place was accepted under its number; a record that left is in no
later request, and the effects of steps report the records that leave; a submission that is refused
lets no record in and changes nothing. No record is lost unless the task breaks down. -/
theorem accepted_record_has_one_place (run : Run options policy history p) :
    (∀ k, k < (intake history).length →
        ∃ place, (serialsAt history p place).count k = 1 ∧
          ∀ other, other ≠ place → k ∉ serialsAt history p other) ∧
      (∀ place, ∀ r ∈ recordsAt history p place, (intake history)[r.serial]? = some r.item) ∧
      (∀ earlier t later, history = earlier ++ t :: later →
        ∀ fate, ∀ r ∈ t.before.departing t.action fate,
          ∀ u ∈ later, ∀ batch ∈ Effect.requests u.effects,
            r.serial ∉ batch.map Pending.serial) ∧
      (∀ t ∈ history, ∀ fate,
        Effect.departed fate t.effects = t.before.departing t.action fate) ∧
      (∀ s r, p.submit s = .ok r → ∃ item, p.admitted (.submit s) = [item] ∧
        p.step (.submit s) = some (p.enqueue item)) ∧
      (∀ s e, p.submit s = .error e →
        p.admitted (.submit s) = [] ∧ p.step (.submit s) = some (p, [])) ∧
      ((∀ t ∈ history, t.action ≠ .reply .breakdown) →
        recordsAt history p (.left .lost) = []) := by
  refine ⟨fun k hk => exists_place run hk, fun place r hr => getElem?_intake_of_mem run hr,
    ?_, ?_, ?_, ?_, recordsAt_lost_eq_nil⟩
  · rintro earlier t later rfl fate r hr u hu batch hbatch
    exact serial_not_mem_later_request run hr hu hbatch
  · intro t ht fate
    exact departed_eq_departing (step_motion (step_of_mem_run run ht)) fate
  · intro s r h
    obtain ⟨item, hitem, rfl⟩ := admitted_of_submit_ok h
    exact ⟨item, hitem, by simp [step, h]⟩
  · intro s e h
    exact ⟨admitted_of_submit_error h, by simp [step, h]⟩

/-- A full queue drops the first of three records, and of the two that are sent the server rejects
one, under two names and beside a place that the request does not have. -/
theorem accepted_record_has_one_place_of_partial_write :
    ∃ history p,
      Run ⟨"db", none, .one, .nanoseconds, by decide, by decide⟩
          ⟨2, 1000, 0, 3, 2, 5, by decide, by decide, by decide⟩ history p ∧
        (intake history).length = 3 ∧
        serialsAt history p (.left .dropped) = [0] ∧
        serialsAt history p .retries = [1] ∧
        serialsAt history p (.left .stored) = [2] ∧
        ∀ k, k < 3 →
          ∃ place, (serialsAt history p place).count k = 1 ∧
            ∀ other, other ≠ place → k ∉ serialsAt history p other := by
  have run := @run_of_trace? ⟨"db", none, .one, .nanoseconds, by decide, by decide⟩
    ⟨2, 1000, 0, 3, 2, 5, by decide, by decide, by decide⟩ _ _
    [.submit (.record "a f=1i"), .submit (.record "b f=2i"), .submit (.record "c f=3i"),
      .work 0, .work 0, .work 0, .work 0, .reply (.outcome (.rejected [0, 7, 0] "no"))] rfl
  exact ⟨_, _, run, rfl, rfl, rfl, rfl, (accepted_record_has_one_place run).1⟩

end Runs

end Pipeline

end TimeSeries
