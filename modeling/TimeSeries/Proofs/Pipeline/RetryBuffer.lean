import Mathlib.Data.List.DropRight
import TimeSeries.Write.RetryBuffer

/-!
# The retry buffer keeps the newest elements

An offer puts elements behind those that wait, and of all of them the buffer keeps the last ones,
as many as it has room for.

An element that was driven out is not among the last ones later on either (`rtake_rtake_append`), so
it makes no difference whether elements are driven out one by one or all at once. `Keeps b l` says
that a buffer has the last elements of `l` and that the number beside them is right. An offer keeps
this for the longer list, and a drain begins again with the empty one. So whatever is done with an
empty buffer, the newest of the elements wait in it that were offered since it was drained last.
-/

namespace TimeSeries.RetryBuffer

variable {α : Type} {b : RetryBuffer α}

/-- The last elements of a list with more behind it are among its own last elements. -/
theorem rtake_rtake_append (l m : List α) (n : Nat) :
    (l.rtake n ++ m).rtake n = (l ++ m).rtake n := by
  have hmin : min (n - m.length) n = n - m.length := Nat.min_eq_left (Nat.sub_le n m.length)
  simp only [List.rtake_eq_reverse_take_reverse, List.reverse_append, List.reverse_reverse,
    List.take_append, List.length_reverse, List.take_take, hmin]

theorem items_push (h : b.items.length ≤ b.capacity) (a : α) :
    (b.push a).1.items = (b.items ++ [a]).rtake b.capacity := by
  rw [push, List.rtake]
  split
  · next hfull =>
      rw [List.length_append, List.length_singleton] at hfull ⊢
      rw [show b.items.length + 1 - b.capacity = 1 by omega]
  · next hroom => rw [Nat.sub_eq_zero_of_le (Nat.le_of_not_lt hroom), List.drop_zero]

/-- Elements that are offered one by one drive out the oldest ones one by one, and the last ones of
all of them are left. -/
theorem items_pushAll (h : b.items.length ≤ b.capacity) (l : List α) :
    (b.pushAll l).1.items = (b.items ++ l).rtake b.capacity := by
  induction l generalizing b with
  | nil =>
      rw [List.append_nil, List.rtake, Nat.sub_eq_zero_of_le h, List.drop_zero]
      rfl
  | cons a l ih =>
      have hle : (b.push a).1.items.length ≤ (b.push a).1.capacity := by
        rw [capacity_push]
        exact length_push_le h a
      calc (b.pushAll (a :: l)).1.items
          = ((b.push a).1.items ++ l).rtake b.capacity := by rw [pushAll, ih hle, capacity_push]
        _ = (b.items ++ [a] ++ l).rtake b.capacity := by rw [items_push h, rtake_rtake_append]
        _ = (b.items ++ a :: l).rtake b.capacity := by
            rw [List.append_assoc, List.singleton_append]

theorem items_offer (h : b.items.length ≤ b.capacity) (l : List α) :
    (b.offer l).1.items = (b.items ++ l).drop (b.items.length + l.length - b.capacity) := by
  rw [← List.length_append]
  exact items_pushAll h l

/-- What can be done with a buffer. -/
inductive Operation (α : Type) where
  | offer (l : List α)
  | drain
deriving DecidableEq, Repr

/-- What an operation returns. -/
inductive Answer (α : Type) where
  /-- The number of elements that were driven out. -/
  | evicted (n : Nat)
  | drained (l : List α)
deriving DecidableEq, Repr

namespace Operation

def isOffer : Operation α → Bool
  | .offer _ => true
  | .drain => false

def offered : Operation α → List α
  | .offer l => l
  | .drain => []

end Operation

/-- One operation on a buffer. -/
def act (b : RetryBuffer α) : Operation α → RetryBuffer α × Answer α
  | .offer l => ((b.offer l).1, .evicted (b.offer l).2.length)
  | .drain => (b.drain.1, .drained b.drain.2)

/-- A buffer behind some operations, the first one being made first. -/
def after (b : RetryBuffer α) (operations : List (Operation α)) : RetryBuffer α :=
  operations.foldl (fun b o => (b.act o).1) b

/-- Everything that was offered behind the last drain. -/
def offeredSinceDrain (operations : List (Operation α)) : List α :=
  (operations.rtakeWhile Operation.isOffer).flatMap Operation.offered

theorem after_concat (b : RetryBuffer α) (operations : List (Operation α)) (o : Operation α) :
    b.after (operations ++ [o]) = ((b.after operations).act o).1 := by
  rw [after, List.foldl_append]
  rfl

theorem offeredSinceDrain_concat_offer (operations : List (Operation α)) (l : List α) :
    offeredSinceDrain (operations ++ [.offer l]) = offeredSinceDrain operations ++ l := by
  rw [offeredSinceDrain, List.rtakeWhile_concat_pos _ _ _ rfl, List.flatMap_append,
    List.flatMap_singleton]
  rfl

theorem offeredSinceDrain_concat_drain (operations : List (Operation α)) :
    offeredSinceDrain (operations ++ [.drain]) = [] := by
  rw [offeredSinceDrain, List.rtakeWhile_concat_neg _ _ _ Bool.false_ne_true, List.flatMap_nil]

/-- A buffer in which the newest elements of a list wait, as many as it has room for, with their
right number beside them. -/
structure Keeps (b : RetryBuffer α) (l : List α) : Prop where
  items : b.items = l.rtake b.capacity
  size : b.size = b.items.length

namespace Keeps

variable {l : List α}

theorem of_empty (capacity : Nat) : (empty capacity : RetryBuffer α).Keeps [] :=
  ⟨(List.rtake_nil capacity).symm, rfl⟩

theorem sound (h : b.Keeps l) : b.Sound := by
  refine ⟨h.size, ?_⟩
  rw [h.items, List.rtake, List.length_drop]
  omega

theorem offer (h : b.Keeps l) (m : List α) : (b.offer m).1.Keeps (l ++ m) := by
  refine ⟨?_, rfl⟩
  calc (b.offer m).1.items
      = (b.items ++ m).rtake b.capacity := items_pushAll h.sound.length_le m
    _ = (l ++ m).rtake b.capacity := by rw [h.items, rtake_rtake_append]
    _ = (l ++ m).rtake (b.offer m).1.capacity := by rw [capacity_offer]

theorem drain (b : RetryBuffer α) : b.drain.1.Keeps [] := of_empty b.capacity

end Keeps

@[simp] theorem capacity_after (b : RetryBuffer α) (operations : List (Operation α)) :
    (b.after operations).capacity = b.capacity := by
  induction operations using List.reverseRecOn with
  | nil => rfl
  | append_singleton operations o ih =>
      rw [after_concat]
      cases o with
      | offer l => exact (capacity_offer _ l).trans ih
      | drain => exact ih

theorem keeps_after (capacity : Nat) (operations : List (Operation α)) :
    ((empty capacity : RetryBuffer α).after operations).Keeps (offeredSinceDrain operations) := by
  induction operations using List.reverseRecOn with
  | nil => exact Keeps.of_empty capacity
  | append_singleton operations o ih =>
      rw [after_concat]
      cases o with
      | offer l =>
          rw [offeredSinceDrain_concat_offer]
          exact ih.offer l
      | drain =>
          rw [offeredSinceDrain_concat_drain]
          exact Keeps.drain _

/-- Whatever is done with an empty buffer of any capacity, the elements that wait in it are the last
ones of those that were offered since it was drained last, in their order and as many as it has room
for, and its size is their number. Another offer returns the number of elements that leave the
buffer, which are the oldest ones of those that waited and were offered; the others wait behind it.
Another drain returns the elements that wait, the oldest one first, and leaves none. -/
theorem newest_are_kept (capacity : Nat) (operations : List (Operation α)) :
    let b := (empty capacity).after operations
    (b.items = (offeredSinceDrain operations).rtake capacity ∧ b.size = b.items.length) ∧
      (∀ l, ∃ left, b.items ++ l = left ++ (b.act (.offer l)).1.items ∧
        (b.act (.offer l)).2 = .evicted left.length) ∧
      (b.act .drain).2 = .drained b.items ∧ (b.act .drain).1.items = [] := by
  intro b
  have hkeeps : b.Keeps (offeredSinceDrain operations) := keeps_after capacity operations
  have hcapacity : b.capacity = capacity := capacity_after _ operations
  refine ⟨⟨hcapacity ▸ hkeeps.items, hkeeps.size⟩, fun l => ?_, rfl, rfl⟩
  exact ⟨(b.offer l).2, (offer_items b l).symm, rfl⟩

example :
    let b := (empty 2).after [.offer [1, 2], .drain, .offer [3], .offer [4, 5, 6]]
    b.items = [5, 6] ∧ b.size = 2 ∧ (b.act (.offer [7])).2 = .evicted 1 := by
  decide

end TimeSeries.RetryBuffer
