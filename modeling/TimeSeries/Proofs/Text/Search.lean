import Mathlib.Data.List.Infix
import TimeSeries.Text.Search

/-!
# What a search finds

`splitAt?` finds a needle wherever it is part of a list, and nothing in front of the place that it
finds has the needle as a part. In front of a needle that does not begin again inside itself, a text
without the needle is found as it is: no occurrence can reach from the text into the needle.
-/

namespace TimeSeries.Text

variable {α : Type} [DecidableEq α] {needle l front rest : List α}

theorem after?_eq_none_iff {start l : List α} : after? start l = none ↔ ¬ start <+: l := by
  rw [Option.eq_none_iff_forall_not_mem, ← not_exists, not_iff_not]
  exact exists_congr fun rest => after?_eq_some_iff.trans eq_comm

theorem splitAt?_eq_none_iff : splitAt? needle l = none ↔ ¬ needle <:+: l := by
  induction l with
  | nil =>
      rw [splitAt?, Option.map_eq_none_iff, after?_eq_none_iff, List.infix_nil, List.prefix_nil]
  | cons a l ih =>
      rw [splitAt?, List.infix_cons_iff, not_or]
      cases hafter : after? needle (a :: l) with
      | none =>
          rw [← after?_eq_none_iff, and_iff_right hafter, ← ih]
          exact Option.map_eq_none_iff
      | some r =>
          have hbegin : needle <+: a :: l := ⟨r, (after?_eq_some_iff.1 hafter).symm⟩
          exact iff_of_false (Option.some_ne_none _) fun h => h.1 hbegin

theorem eq_of_splitAt? (h : splitAt? needle l = some (front, rest)) :
    l = front ++ (needle ++ rest) := by
  induction l generalizing front with
  | nil =>
      obtain ⟨r, hr, heq⟩ := Option.map_eq_some_iff.1 h
      cases heq
      rw [List.nil_append]
      exact after?_eq_some_iff.1 hr
  | cons a l ih =>
      rw [splitAt?] at h
      cases hafter : after? needle (a :: l) with
      | none =>
          rw [hafter] at h
          obtain ⟨parts, hparts, heq⟩ := Option.map_eq_some_iff.1 h
          cases heq
          rw [List.cons_append, ← ih hparts]
      | some r =>
          rw [hafter] at h
          cases h
          rw [List.nil_append]
          exact after?_eq_some_iff.1 hafter

/-- What stands in front of the first occurrence has no occurrence in it. -/
theorem not_infix_of_splitAt? (hneedle : needle ≠ [])
    (h : splitAt? needle l = some (front, rest)) : ¬ needle <:+: front := by
  induction l generalizing front with
  | nil =>
      obtain ⟨r, -, heq⟩ := Option.map_eq_some_iff.1 h
      cases heq
      exact mt List.infix_nil.1 hneedle
  | cons a l ih =>
      have hl := eq_of_splitAt? h
      rw [splitAt?] at h
      cases hafter : after? needle (a :: l) with
      | none =>
          rw [hafter] at h
          obtain ⟨parts, hparts, heq⟩ := Option.map_eq_some_iff.1 h
          cases heq
          rw [List.infix_cons_iff, not_or]
          refine ⟨fun hbegin => after?_eq_none_iff.1 hafter ?_, ih hparts⟩
          exact hl ▸ hbegin.trans (List.prefix_append _ _)
      | some r =>
          rw [hafter] at h
          cases h
          exact mt List.infix_nil.1 hneedle

/-- A needle whose first element does not occur in it again is found behind everything that does not
have it as a part. -/
theorem splitAt?_append {a : α} {tail : List α} (ha : a ∉ tail) (hfront : ¬ a :: tail <:+: front)
    (rest : List α) : splitAt? (a :: tail) (front ++ (a :: tail ++ rest)) = some (front, rest) := by
  induction front with
  | nil =>
      have hafter : after? (a :: tail) (a :: (tail ++ rest)) = some rest := after?_eq_some_iff.2 rfl
      rw [List.nil_append, List.cons_append, splitAt?, hafter]
  | cons b front ih =>
      rw [List.infix_cons_iff, not_or] at hfront
      have hafter : after? (a :: tail) (b :: (front ++ (a :: tail ++ rest))) = none := by
        rw [after?_eq_none_iff]
        intro hbegin
        rcases List.prefix_or_prefix_of_prefix hbegin
          (List.prefix_append (b :: front) (a :: tail ++ rest)) with hin | ⟨t, ht⟩
        · exact hfront.1 hin
        · -- The occurrence goes on behind `front`, where the needle begins.
          have hrest : t <+: a :: tail ++ rest := by
            rw [← List.prefix_append_right_inj (b :: front), ht]
            exact hbegin
          cases t with
          | nil =>
              rw [List.append_nil] at ht
              exact hfront.1 (ht ▸ List.prefix_refl _)
          | cons c t =>
              obtain ⟨rfl, -⟩ := List.cons_prefix_cons.1 hrest
              obtain ⟨-, rfl⟩ := List.cons_eq_cons.1 ht
              exact ha (List.mem_append_right front List.mem_cons_self)
      rw [List.cons_append, splitAt?, hafter, ih hfront.2]
      rfl

theorem eq_of_splitLast? {a : α} (h : splitLast? a l = some (front, rest)) :
    l = front ++ a :: rest := by
  induction l generalizing front with
  | nil => cases h
  | cons b l ih =>
      rw [splitLast?] at h
      cases hlast : splitLast? a l with
      | some parts =>
          rw [hlast] at h
          cases h
          rw [List.cons_append, ← ih hlast]
      | none =>
          rw [hlast] at h
          by_cases hb : b = a
          · cases (if_pos hb).symm.trans h
            rw [hb, List.nil_append]
          · cases (if_neg hb).symm.trans h

end TimeSeries.Text
