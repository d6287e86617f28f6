import Mathlib.Data.List.TakeWhile

/-!
# Runs at the head of a list

What is written without a mark at its end is found as the longest run of its elements, if what
follows it begins with something else. So such a list and what follows it are determined by the two
together.
-/

namespace TimeSeries.Text

variable {α : Type} {p : α → Bool} {l m rest more : List α}

theorem takeWhile_append_stop (hl : ∀ a ∈ l, p a = true) (hrest : ∀ a ∈ rest.head?, p a = false) :
    (l ++ rest).takeWhile p = l := by
  rw [List.takeWhile_append_of_pos hl]
  cases rest with
  | nil => rw [List.takeWhile_nil, List.append_nil]
  | cons a rest => rw [List.takeWhile_cons_of_neg (by simp [hrest a rfl]), List.append_nil]

theorem dropWhile_append_stop (hl : ∀ a ∈ l, p a = true) (hrest : ∀ a ∈ rest.head?, p a = false) :
    (l ++ rest).dropWhile p = rest := by
  rw [List.dropWhile_append_of_pos hl]
  cases rest with
  | nil => rfl
  | cons a rest => rw [List.dropWhile_cons_of_neg (by simp [hrest a rfl])]

theorem append_inj_of_stop (h : l ++ rest = m ++ more) (hl : ∀ a ∈ l, p a = true)
    (hrest : ∀ a ∈ rest.head?, p a = false) (hm : ∀ a ∈ m, p a = true)
    (hmore : ∀ a ∈ more.head?, p a = false) : l = m ∧ rest = more := by
  have htake := congrArg (List.takeWhile p) h
  have hdrop := congrArg (List.dropWhile p) h
  rw [takeWhile_append_stop hl hrest, takeWhile_append_stop hm hmore] at htake
  rw [dropWhile_append_stop hl hrest, dropWhile_append_stop hm hmore] at hdrop
  exact ⟨htake, hdrop⟩

end TimeSeries.Text
