import Mathlib.Data.List.Basic
import Mathlib.Logic.Function.Iterate
import TimeSeries.Table.Scan

/-!
# Reading on behind faults

A response can be read event by event or record by record, and reading may go on behind a fault.
What the calls return are the results of the scan one after the other, and behind the last one what
is said at the end, again and again. A call that halts does not return, so none is made behind it:
it stands for all further calls.

Both ways of reading use up results and nothing else, which is `Consumes`. So for each of them there
are no more calls than results before the end is reached.
-/

namespace TimeSeries.Scan

section Calls

variable {α : Type} (next : Scan → Except TableError (Option α) × Scan)

/-- The scan that the next call is made on. -/
def resume (s : Scan) : Scan :=
  match next s with
  | (.error .halted, _) => s
  | (_, behind) => behind

/-- What is returned by the call with this number, from zero, when all results are gone past. -/
def call (s : Scan) (n : Nat) : Except TableError (Option α) := (next ((resume next)^[n] s)).1

end Calls

/-- What is said when all results are used up. -/
def farewell {α : Type} (s : Scan) : Except TableError (Option α) :=
  match s.ending with
  | some e => .error e
  | none => .ok none

/-- A call halts on a result, or it uses up some results on which none halts. -/
structure Consumes {α : Type} (next : Scan → Except TableError (Option α) × Scan) : Prop where
  atEnd : ∀ s, s.results = [] → next s = (s.farewell, s)
  turn : ∀ s, s.results ≠ [] → s.ending ≠ some .halted →
    ((next s).1 = .error .halted ∧ .error .halted ∈ s.results) ∨
      ((next s).1 ≠ .error .halted ∧ (next s).2.ending = s.ending ∧
        ∃ used, used ≠ [] ∧ .error .halted ∉ used ∧ s.results = used ++ (next s).2.results)
  ended : ∀ s, (next s).1 = .ok none → s.ending = none ∧ .error .halted ∉ s.results

theorem consumes_nextEvent : Consumes nextEvent where
  atEnd s hs := by
    rw [nextEvent, hs, farewell]
    cases s.ending <;> rfl
  turn s hs _ := by
    obtain ⟨results, ending⟩ := s
    cases results with
    | nil => exact absurd rfl hs
    | cons result rest =>
        cases result with
        | ok e => exact .inr ⟨nofun, rfl, [.ok e], by simp [nextEvent]⟩
        | error e =>
            by_cases hhalted : e = .halted
            · subst hhalted
              exact .inl ⟨rfl, List.mem_cons_self⟩
            · exact .inr ⟨by simpa [nextEvent] using hhalted, rfl, [.error e],
                by simpa [nextEvent] using Ne.symm hhalted⟩
  ended s hs := by
    obtain ⟨results, ending⟩ := s
    cases results with
    | nil =>
        cases ending with
        | none => exact ⟨rfl, List.not_mem_nil⟩
        | some e => cases hs
    | cons result rest => cases result <;> cases hs

theorem nextRecordIn_turn {ending : Option TableError} (hending : ending ≠ some .halted)
    {results : List (Except TableError Event)} (hs : results ≠ []) :
    ((nextRecordIn ending results).1 = .error .halted ∧ .error .halted ∈ results) ∨
      ((nextRecordIn ending results).1 ≠ .error .halted ∧
        (nextRecordIn ending results).2.ending = ending ∧
          ∃ used, used ≠ [] ∧ .error .halted ∉ used ∧
            results = used ++ (nextRecordIn ending results).2.results) := by
  induction results with
  | nil => exact absurd rfl hs
  | cons result rest ih =>
      match result with
      | .ok (.record r) => exact .inr ⟨nofun, rfl, [.ok (.record r)], by simp [nextRecordIn]⟩
      | .error e =>
          by_cases hhalted : e = .halted
          · subst hhalted
            exact .inl ⟨rfl, List.mem_cons_self⟩
          · exact .inr ⟨by simpa [nextRecordIn] using hhalted, rfl, [.error e],
              by simpa [nextRecordIn] using Ne.symm hhalted⟩
      | .ok (.table h) =>
          rw [nextRecordIn]
          by_cases hrest : rest = []
          · subst hrest
            refine .inr ⟨?_, ?_, [.ok (.table h)], ?_⟩ <;> cases ending <;>
              simp_all [nextRecordIn]
          · rcases ih hrest with ⟨hcall, hmem⟩ | ⟨hcall, hsame, used, -, hused, hsplit⟩
            · exact .inl ⟨hcall, List.mem_cons_of_mem _ hmem⟩
            · refine .inr ⟨hcall, hsame, .ok (.table h) :: used, List.cons_ne_nil _ _, ?_, ?_⟩
              · simpa using hused
              · rw [List.cons_append, ← hsplit]

theorem nextRecordIn_ended {ending : Option TableError} {results : List (Except TableError Event)}
    (h : (nextRecordIn ending results).1 = .ok none) :
    ending = none ∧ .error .halted ∉ results := by
  induction results with
  | nil =>
      cases ending with
      | none => exact ⟨rfl, List.not_mem_nil⟩
      | some e => cases h
  | cons result rest ih =>
      match result with
      | .ok (.table head) =>
          obtain ⟨hending, hrest⟩ := ih h
          exact ⟨hending, by simpa using hrest⟩
      | .ok (.record r) => cases h
      | .error e => cases h

theorem consumes_nextRecord : Consumes nextRecord where
  atEnd s hs := by
    obtain ⟨results, ending⟩ := s
    obtain rfl : results = [] := hs
    cases ending <;> rfl
  turn _ hs hending := nextRecordIn_turn hending hs
  ended _ hs := nextRecordIn_ended hs

section Consuming

variable {α : Type} {next : Scan → Except TableError (Option α) × Scan} {s : Scan}

theorem call_succ (s : Scan) (n : Nat) : call next s (n + 1) = call next (resume next s) n := rfl

theorem resume_of_halted (h : (next s).1 = .error .halted) : resume next s = s := by
  rw [resume]
  split
  · rfl
  · next hne heq =>
      rw [heq] at h
      exact absurd h hne

theorem resume_of_ne (h : (next s).1 ≠ .error .halted) : resume next s = (next s).2 := by
  rw [resume]
  split
  · next heq =>
      rw [heq] at h
      exact absurd rfl h
  · next heq => rw [heq]

theorem call_of_halted (h : (next s).1 = .error .halted) (n : Nat) :
    call next s n = .error .halted := by
  rw [call, Function.iterate_fixed (resume_of_halted h), h]

/-- What the first call returns and leaves behind says what all calls return. -/
theorem call_congr {s s' : Scan} (h : next s = next s') : call next s = call next s' := by
  funext n
  cases n with
  | zero => exact congrArg Prod.fst h
  | succ n =>
      by_cases hhalted : (next s).1 = .error .halted
      · rw [call_of_halted hhalted, call_of_halted (h ▸ hhalted)]
      · rw [call_succ, call_succ, resume_of_ne hhalted, resume_of_ne (h ▸ hhalted), h]

namespace Consumes

theorem resume_of_nil (hnext : Consumes next) (hs : s.results = []) : resume next s = s := by
  rw [resume, hnext.atEnd s hs]
  split
  · rfl
  · next heq => exact (Prod.mk.inj heq).2.symm

theorem call_of_nil (hnext : Consumes next) (hs : s.results = []) (n : Nat) :
    call next s n = s.farewell := by
  rw [call, Function.iterate_fixed (hnext.resume_of_nil hs), hnext.atEnd s hs]

/-- Nothing but results is used up between two calls, and no result on which a call halts. -/
theorem resume_spec (hnext : Consumes next) (hs : s.ending ≠ some .halted) :
    (resume next s).ending = s.ending ∧
      (.error .halted ∈ (resume next s).results ↔ .error .halted ∈ s.results) := by
  by_cases hnil : s.results = []
  · rw [hnext.resume_of_nil hnil]
    exact ⟨rfl, Iff.rfl⟩
  · rcases hnext.turn s hnil hs with ⟨hhalted, -⟩ | ⟨hgoes, hending, used, -, hused, hsplit⟩
    · rw [resume_of_halted hhalted]
      exact ⟨rfl, Iff.rfl⟩
    · rw [resume_of_ne hgoes]
      refine ⟨hending, ?_⟩
      rw [hsplit, List.mem_append]
      exact ⟨.inr, fun h => h.resolve_left hused⟩

/-- Behind all results a call that halts stands for all others, if there is one, and what is said at
the end is said again and again if there is none. -/
theorem call_of_length_le (hnext : Consumes next) (hs : s.ending ≠ some .halted) {n : Nat}
    (hn : s.results.length ≤ n) :
    (.error .halted ∈ s.results → call next s n = .error .halted) ∧
      (.error .halted ∉ s.results → call next s n = s.farewell) := by
  -- a call that returns makes the results shorter, so the bound shrinks with them
  induction n generalizing s with
  | zero =>
      have hnil : s.results = [] := List.length_eq_zero_iff.1 (Nat.le_zero.1 hn)
      refine ⟨fun hmem => ?_, fun _ => hnext.call_of_nil hnil 0⟩
      rw [hnil] at hmem
      cases hmem
  | succ n ih =>
      by_cases hnil : s.results = []
      · refine ⟨fun hmem => ?_, fun _ => hnext.call_of_nil hnil _⟩
        rw [hnil] at hmem
        cases hmem
      rcases hnext.turn s hnil hs with ⟨hhalted, hmem⟩ | ⟨hgoes, hending, used, hne, -, hsplit⟩
      · exact ⟨fun _ => call_of_halted hhalted _, fun hno => absurd hmem hno⟩
      · have hspec := hnext.resume_spec hs
        have hlength : (resume next s).results.length ≤ n := by
          have hused := List.length_pos_iff.2 hne
          have hlengths := congrArg List.length hsplit
          rw [List.length_append] at hlengths
          rw [resume_of_ne hgoes]
          omega
        have hfarewell : (resume next s).farewell = (s.farewell : Except TableError (Option α)) := by
          rw [farewell, farewell, hspec.1]
        have hcalls := ih (hspec.1 ▸ hs) hlength
        rw [call_succ, ← hspec.2, ← hfarewell]
        exact hcalls

/-- The end is told only where nothing halts and no fault is reported at the end. -/
theorem of_call_eq_none (hnext : Consumes next) (hs : s.ending ≠ some .halted) {n : Nat}
    (h : call next s n = .ok none) : s.ending = none ∧ .error .halted ∉ s.results := by
  induction n generalizing s with
  | zero => exact hnext.ended s h
  | succ n ih =>
      have hspec := hnext.resume_spec hs
      obtain ⟨hending, hmem⟩ := ih (hspec.1 ▸ hs) h
      exact ⟨hspec.1 ▸ hending, fun hhalted => hmem (hspec.2.2 hhalted)⟩

end Consumes

end Consuming

section Events

variable {s : Scan} {n : Nat}

/-- The events that the first calls return. -/
def events (s : Scan) (n : Nat) : List Event :=
  (List.range n).filterMap fun i => (s.call nextEvent i).toOption.join

theorem join_toOption_eq_some_iff {x : Except TableError (Option Event)} {e : Event} :
    x.toOption.join = some e ↔ x = .ok (some e) := by
  cases x <;> simp [Except.toOption]

theorem events_succ (s : Scan) (n : Nat) :
    s.events (n + 1) = s.events n ++ ((s.call nextEvent n).toOption.join).toList := by
  rw [events, List.range_succ, List.filterMap_append]
  cases h : (s.call nextEvent n).toOption.join <;> simp [events, h]

theorem events_succ_of_some {e : Event} (h : s.call nextEvent n = .ok (some e)) :
    s.events (n + 1) = s.events n ++ [e] := by
  rw [events_succ, h]
  rfl

/-- As long as nothing has halted, every call for an event uses up one result. -/
theorem iterate_resume_nextEvent (h : .error .halted ∉ s.results.take n) :
    (resume nextEvent)^[n] s = ⟨s.results.drop n, s.ending⟩ := by
  obtain ⟨results, ending⟩ := s
  induction n generalizing results with
  | zero => rfl
  | succ n ih =>
      rw [Function.iterate_succ_apply]
      cases results with
      | nil =>
          rw [consumes_nextEvent.resume_of_nil rfl, ih [] (by simp)]
          simp
      | cons result rest =>
          rw [List.take_succ_cons, List.mem_cons, not_or] at h
          have hgoes : (nextEvent ⟨result :: rest, ending⟩).1 ≠ .error .halted := by
            cases result with
            | ok e => nofun
            | error e => simpa [nextEvent, eq_comm] using h.1
          rw [resume_of_ne hgoes]
          cases result <;> exact ih rest h.2

/-- As long as nothing has halted, the events are those among as many results. -/
theorem events_eq (h : .error .halted ∉ s.results.take n) :
    s.events n = (s.results.take n).filterMap Except.toOption := by
  induction n with
  | zero => rfl
  | succ n ih =>
      have hfront : .error .halted ∉ s.results.take n := fun hmem =>
        h (List.take_subset_take_left s.results n.le_succ hmem)
      have hcall : (s.call nextEvent n).toOption.join = s.results[n]?.bind Except.toOption := by
        rw [call, iterate_resume_nextEvent hfront, nextEvent, ← List.head?_drop]
        cases s.results.drop n with
        | nil => cases s.ending <;> rfl
        | cons result rest => cases result <;> rfl
      rw [events_succ, ih hfront, hcall, List.take_add_one, List.filterMap_append]
      cases s.results[n]? with
      | none => rfl
      | some result => cases result <;> rfl

/-- A call that returns an event returns the result of its number, and no call has halted. -/
theorem of_call_eq_some {e : Event} (h : s.call nextEvent n = .ok (some e)) :
    .error .halted ∉ s.results.take n ∧ s.results[n]? = some (.ok e) := by
  obtain ⟨results, ending⟩ := s
  induction n generalizing results with
  | zero =>
      cases results with
      | nil => cases ending <;> cases h
      | cons result rest =>
          refine ⟨List.not_mem_nil, ?_⟩
          cases result with
          | error _ => cases h
          | ok e' =>
              obtain rfl := Option.some.inj (Except.ok.inj h)
              rfl
  | succ n ih =>
      cases results with
      | nil =>
          rw [consumes_nextEvent.call_of_nil rfl] at h
          cases ending <;> cases h
      | cons result rest =>
          by_cases hhalted : (nextEvent ⟨result :: rest, ending⟩).1 = .error .halted
          · rw [call_of_halted hhalted] at h
            cases h
          · rw [call_succ, resume_of_ne hhalted] at h
            cases result with
            | ok e' => simpa using ih rest h
            | error fault =>
                have hfault : fault ≠ .halted := by simpa [nextEvent] using hhalted
                simpa [Ne.symm hfault] using ih rest h

end Events

end TimeSeries.Scan
