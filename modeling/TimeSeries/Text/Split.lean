/-!
# Cutting a list at separators

`splitAll p l` cuts `l` at every element that satisfies `p`. There is always one piece more than
there are such elements.
-/

namespace TimeSeries.Text

/-- The pieces of a list between the elements that satisfy `p`. -/
def splitAll {α : Type} (p : α → Bool) : List α → List (List α)
  | [] => [[]]
  | a :: rest =>
    if p a then [] :: splitAll p rest
    else
      match splitAll p rest with
      | [] => [[a]]
      | piece :: more => (a :: piece) :: more

theorem splitAll_ne_nil {α : Type} (p : α → Bool) (l : List α) : splitAll p l ≠ [] := by
  cases l with
  | nil => simp [splitAll]
  | cons a l =>
    rw [splitAll]
    split
    · simp
    · split <;> simp

theorem length_splitAll {α : Type} (p : α → Bool) (l : List α) :
    (splitAll p l).length = l.countP p + 1 := by
  induction l with
  | nil => rfl
  | cons a l ih =>
    rw [splitAll]
    split
    · next h => simp [h, ih]
    · next h =>
      split
      · next hs => exact absurd hs (splitAll_ne_nil p l)
      · next piece more hs => simpa [h, hs] using ih

end TimeSeries.Text
