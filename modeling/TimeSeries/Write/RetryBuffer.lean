/-!
# The retry buffer

A retry buffer keeps elements in the order in which they were offered, at most `capacity` of them.
An element that is offered to a full buffer drives out the oldest one. Without any capacity the
oldest one is the element itself.

Callers who ask for the size read a number that stands beside the elements. It is set whenever
elements come or go.
-/

namespace TimeSeries

/-- Elements that wait, the oldest one first. -/
structure RetryBuffer (α : Type) where
  /-- The number of elements that can wait. -/
  capacity : Nat
  items : List α
  /-- The number of elements, as it was set last. -/
  count : Nat
deriving DecidableEq, Repr

namespace RetryBuffer

variable {α : Type}

def empty (capacity : Nat) : RetryBuffer α := ⟨capacity, [], 0⟩

def size (b : RetryBuffer α) : Nat := b.count

def isEmpty (b : RetryBuffer α) : Bool := b.size == 0

/-- A buffer with one more element, and the element that it drives out. -/
def push (b : RetryBuffer α) (a : α) : RetryBuffer α × Option α :=
  let items := b.items ++ [a]
  if b.capacity < items.length then ({ b with items := items.drop 1 }, items.head?)
  else ({ b with items := items }, none)

/-- A buffer with more elements, taken from left to right, and those that are driven out. -/
def pushAll (b : RetryBuffer α) : List α → RetryBuffer α × List α
  | [] => (b, [])
  | a :: more =>
    let r := b.push a
    let s := r.1.pushAll more
    (s.1, r.2.toList ++ s.2)

/-- More elements are taken, and the number of elements is set behind the last one. -/
def offer (b : RetryBuffer α) (l : List α) : RetryBuffer α × List α :=
  let r := b.pushAll l
  ({ r.1 with count := r.1.items.length }, r.2)

/-- The empty buffer that is left when everything is taken, and what was taken. -/
def drain (b : RetryBuffer α) : RetryBuffer α × List α := (empty b.capacity, b.items)

@[simp] theorem capacity_push (b : RetryBuffer α) (a : α) : (b.push a).1.capacity = b.capacity := by
  simp only [push]; split <;> rfl

@[simp] theorem capacity_pushAll (b : RetryBuffer α) (l : List α) :
    (b.pushAll l).1.capacity = b.capacity := by
  induction l generalizing b with
  | nil => rfl
  | cons a l ih => simp [pushAll, ih]

@[simp] theorem capacity_offer (b : RetryBuffer α) (l : List α) :
    (b.offer l).1.capacity = b.capacity :=
  capacity_pushAll b l

/-- Nothing is lost: what waited and what was offered is driven out or waits, in this order. -/
theorem push_items (b : RetryBuffer α) (a : α) :
    (b.push a).2.toList ++ (b.push a).1.items = b.items ++ [a] := by
  simp only [push]
  split
  · cases h : b.items <;> simp
  · simp

theorem pushAll_items (b : RetryBuffer α) (l : List α) :
    (b.pushAll l).2 ++ (b.pushAll l).1.items = b.items ++ l := by
  induction l generalizing b with
  | nil => simp [pushAll]
  | cons a l ih =>
    have h := push_items b a
    simp only [pushAll]
    rw [List.append_assoc, ih, ← List.append_assoc, h]
    simp

theorem offer_items (b : RetryBuffer α) (l : List α) :
    (b.offer l).2 ++ (b.offer l).1.items = b.items ++ l :=
  pushAll_items b l

@[simp] theorem offer_nil (b : RetryBuffer α) :
    b.offer [] = ({ b with count := b.items.length }, []) := rfl

/-- The number beside the elements is right, and there are not too many of them. -/
structure Sound (b : RetryBuffer α) : Prop where
  size : b.size = b.items.length
  length_le : b.items.length ≤ b.capacity

theorem sound_empty (capacity : Nat) : (empty capacity : RetryBuffer α).Sound :=
  ⟨rfl, Nat.zero_le capacity⟩

theorem length_push_le {b : RetryBuffer α} (h : b.items.length ≤ b.capacity) (a : α) :
    (b.push a).1.items.length ≤ b.capacity := by
  simp only [push]
  split
  · simpa using h
  · next hroom => exact Nat.le_of_not_lt hroom

theorem length_pushAll_le {b : RetryBuffer α} (h : b.items.length ≤ b.capacity) (l : List α) :
    (b.pushAll l).1.items.length ≤ b.capacity := by
  induction l generalizing b with
  | nil => exact h
  | cons a l ih =>
    have hpush : (b.push a).1.items.length ≤ (b.push a).1.capacity := by
      rw [capacity_push]
      exact length_push_le h a
    have hrest := ih hpush
    rwa [capacity_push] at hrest

theorem Sound.offer {b : RetryBuffer α} (h : b.Sound) (l : List α) : (b.offer l).1.Sound :=
  ⟨rfl, (capacity_offer b l).symm ▸ length_pushAll_le h.length_le l⟩

end RetryBuffer

end TimeSeries
