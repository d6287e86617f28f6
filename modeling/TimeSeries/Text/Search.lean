/-!
# Finding a text inside another

`splitAt? needle l` looks for the first place where `needle` stands in `l` and returns what is in
front of it and what follows it.
-/

namespace TimeSeries.Text

/-- What follows `start` in `l`, when `l` begins with it. -/
def after? {α : Type} [DecidableEq α] : (start l : List α) → Option (List α)
  | [], l => some l
  | _ :: _, [] => none
  | a :: start, b :: l => if a = b then after? start l else none

/-- The parts of `l` before and after the first occurrence of `needle`. -/
def splitAt? {α : Type} [DecidableEq α] (needle : List α) : List α → Option (List α × List α)
  | [] => (after? needle []).map fun rest => ([], rest)
  | a :: l =>
    match after? needle (a :: l) with
    | some rest => some ([], rest)
    | none => (splitAt? needle l).map fun parts => (a :: parts.1, parts.2)

/-- The part of `l` before the last occurrence of `a`, and what follows that occurrence. -/
def splitLast? {α : Type} [DecidableEq α] (a : α) : List α → Option (List α × List α)
  | [] => none
  | b :: l =>
    match splitLast? a l with
    | some parts => some (b :: parts.1, parts.2)
    | none => if b = a then some ([], l) else none

def contains (needle s : String) : Bool := (splitAt? needle.toList s.toList).isSome

theorem after?_eq_some_iff {α : Type} [DecidableEq α] {start l rest : List α} :
    after? start l = some rest ↔ l = start ++ rest := by
  induction start generalizing l with
  | nil => simp [after?]
  | cons a start ih =>
    cases l with
    | nil => simp [after?]
    | cons b l =>
      by_cases h : a = b
      · subst h; simp [after?, ih]
      · simp [after?, h, Ne.symm h]

theorem length_lt_of_splitAt? {α : Type} [DecidableEq α] {needle l front rest : List α}
    (hneedle : needle ≠ []) (h : splitAt? needle l = some (front, rest)) :
    rest.length < l.length := by
  induction l generalizing front with
  | nil =>
    cases needle with
    | nil => exact absurd rfl hneedle
    | cons a needle => simp [splitAt?, after?] at h
  | cons a l ih =>
    rw [splitAt?] at h
    split at h
    · next r hr =>
      have hl := after?_eq_some_iff.1 hr
      obtain ⟨-, rfl⟩ : [] = front ∧ r = rest := by simpa using h
      have := congrArg List.length hl
      have : 0 < needle.length := List.length_pos_iff.2 hneedle
      simp at *
      omega
    · obtain ⟨parts, hparts, heq⟩ := Option.map_eq_some_iff.1 h
      obtain ⟨rfl, rfl⟩ : a :: parts.1 = front ∧ parts.2 = rest := by simpa using heq
      have := ih hparts
      simp only [List.length_cons]
      omega

end TimeSeries.Text
