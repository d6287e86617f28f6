import TimeSeries.Proofs.Text.Trim
import TimeSeries.Text.Lines

/-!
# Lines of joined texts

Texts that are joined with line feeds fall apart into the lines of each, one behind the other. This
needs a condition on the texts. The lines of a text do not show a line feed at its end, nor a
carriage return that comes to stand in front of the next line feed, nor an empty text in the last
place. A text that `EndsInLine` has none of these at its end.

Such a text has one line more than it has line feeds.
-/

namespace TimeSeries.Text

/-- The text has a last character, and it is neither a line feed nor a carriage return. -/
def EndsInLine (s : String) : Prop := ∃ c, s.toList.getLast? = some c ∧ c ≠ '\n' ∧ c ≠ '\r'

theorem hasLineFeed_append (s t : String) :
    hasLineFeed (s ++ t) = (hasLineFeed s || hasLineFeed t) := by
  simp [hasLineFeed]

theorem hasLineFeed_join (l : List String) :
    hasLineFeed (String.join l) = l.any hasLineFeed := by
  induction l with
  | nil => rfl
  | cons s l ih => rw [String.join_cons, hasLineFeed_append, ih, List.any_cons]

theorem hasLineFeed_intercalate {separator : String} (hseparator : hasLineFeed separator = false)
    (l : List String) : hasLineFeed (separator.intercalate l) = l.any hasLineFeed := by
  induction l with
  | nil => rfl
  | cons s l ih =>
      by_cases hnil : l = []
      · subst hnil
        simp
      · rw [String.intercalate_cons_of_ne_nil hnil, hasLineFeed_append, hasLineFeed_append,
          hseparator, ih, Bool.or_false, List.any_cons]

theorem splitAll_append_cons {α : Type} {p : α → Bool} {a : α} (ha : p a = true) (l m : List α) :
    splitAll p (l ++ a :: m) = splitAll p l ++ splitAll p m := by
  induction l with
  | nil => simp [splitAll, ha]
  | cons b l ih =>
      by_cases hb : p b = true
      · simp [splitAll, hb, ih]
      · obtain ⟨piece, more, hcons⟩ := List.exists_cons_of_ne_nil (splitAll_ne_nil p l)
        rw [List.cons_append, splitAll, if_neg hb, ih, hcons, splitAll, if_neg hb, hcons]
        rfl

theorem splitAll_of_none {α : Type} {p : α → Bool} {l : List α} (h : ∀ a ∈ l, p a = false) :
    splitAll p l = [l] := by
  induction l with
  | nil => rfl
  | cons a l ih =>
      have hl := ih fun b hb => h b (List.mem_cons_of_mem a hb)
      rw [splitAll, if_neg (by simp [h a List.mem_cons_self]), hl]

/-- The last piece ends as the list does, unless the list ends in a separator. -/
theorem getLast?_splitAll {α : Type} {p : α → Bool} {l : List α} {a : α}
    (hlast : l.getLast? = some a) (ha : p a = false) :
    ∃ last, (splitAll p l).getLast? = some last ∧ last.getLast? = some a := by
  induction l with
  | nil => cases hlast
  | cons b l ih =>
      obtain ⟨piece, more, hcons⟩ := List.exists_cons_of_ne_nil (splitAll_ne_nil p l)
      cases l with
      | nil =>
          obtain rfl : b = a := by simpa using hlast
          exact ⟨[b], by simp [splitAll, ha], rfl⟩
      | cons c l =>
          obtain ⟨last, hpieces, hend⟩ := ih (by simpa using hlast)
          by_cases hb : p b = true
          · refine ⟨last, ?_, hend⟩
            rw [splitAll, if_pos hb, List.getLast?_cons, hpieces]
            rfl
          · rw [splitAll, if_neg hb, hcons]
            rw [hcons] at hpieces
            cases more with
            | nil =>
                obtain rfl : piece = last := by simpa using hpieces
                refine ⟨b :: piece, rfl, ?_⟩
                rw [List.getLast?_cons, hend]
                rfl
            | cons next more => exact ⟨last, by simpa using hpieces, hend⟩

theorem linesOfPieces_cons {piece : List Char} {more : List (List Char)} (h : more ≠ []) :
    linesOfPieces (piece :: more) = dropReturn piece :: linesOfPieces more := by
  obtain ⟨next, rest, rfl⟩ := List.exists_cons_of_ne_nil h
  rfl

theorem linesOfPieces_singleton {last : List Char} (h : last ≠ []) :
    linesOfPieces [last] = [last] := by
  rw [linesOfPieces, if_neg (by simpa using h)]

theorem dropReturn_of_getLast? {l : List Char} {c : Char} (hlast : l.getLast? = some c)
    (hc : c ≠ '\r') : dropReturn l = l := by
  rw [dropReturn, hlast, if_neg (by simpa using hc)]

theorem ne_nil_of_getLast? {α : Type} {l : List α} {a : α} (h : l.getLast? = some a) : l ≠ [] := by
  rintro rfl
  cases h

section Pieces

variable {pieces : List (List Char)} {last : List Char} {c : Char}

/-- Pieces whose last one is a line as it stands come apart from what follows them. -/
theorem linesOfPieces_append (hpieces : pieces.getLast? = some last)
    (hlast : last.getLast? = some c) (hc : c ≠ '\r') (more : List (List Char)) :
    linesOfPieces (pieces ++ more) = linesOfPieces pieces ++ linesOfPieces more := by
  by_cases hmore : more = []
  · rw [hmore, linesOfPieces, List.append_nil, List.append_nil]
  · induction pieces with
    | nil => cases hpieces
    | cons piece pieces ih =>
        rw [List.cons_append, linesOfPieces_cons (List.append_ne_nil_of_right_ne_nil _ hmore)]
        by_cases hnil : pieces = []
        · subst hnil
          obtain rfl : piece = last := by simpa using hpieces
          rw [linesOfPieces_singleton (ne_nil_of_getLast? hlast), dropReturn_of_getLast? hlast hc]
          rfl
        · rw [ih (List.getLast?_cons_of_ne_nil hnil ▸ hpieces), linesOfPieces_cons hnil]
          rfl

theorem length_linesOfPieces (hpieces : pieces.getLast? = some last)
    (hlast : last.getLast? = some c) : (linesOfPieces pieces).length = pieces.length := by
  induction pieces with
  | nil => rfl
  | cons piece pieces ih =>
      by_cases hnil : pieces = []
      · subst hnil
        obtain rfl : piece = last := by simpa using hpieces
        rw [linesOfPieces_singleton (ne_nil_of_getLast? hlast)]
      · rw [linesOfPieces_cons hnil, List.length_cons, List.length_cons,
          ih (List.getLast?_cons_of_ne_nil hnil ▸ hpieces)]

end Pieces

namespace EndsInLine

variable {s : String}

theorem append (s : String) {t : String} (h : EndsInLine t) : EndsInLine (s ++ t) := by
  obtain ⟨c, hlast, hc⟩ := h
  exact ⟨c, by rw [String.toList_append, List.getLast?_append, hlast, Option.some_or], hc⟩

theorem exists_last_piece (h : EndsInLine s) :
    ∃ last c, (splitAll (· == '\n') s.toList).getLast? = some last ∧ last.getLast? = some c ∧
      c ≠ '\r' := by
  obtain ⟨c, hlast, hfeed, hreturn⟩ := h
  obtain ⟨last, hpieces, hend⟩ := getLast?_splitAll (p := (· == '\n')) hlast (by simpa using hfeed)
  exact ⟨last, c, hpieces, hend, hreturn⟩

theorem lines_append_lineFeed (h : EndsInLine s) (t : String) :
    lines (s ++ "\n" ++ t) = lines s ++ lines t := by
  obtain ⟨last, c, hpieces, hlast, hc⟩ := h.exists_last_piece
  have hchars : (s ++ "\n" ++ t).toList = s.toList ++ '\n' :: t.toList := by simp
  rw [lines, hchars, splitAll_append_cons rfl, linesOfPieces_append hpieces hlast hc,
    List.map_append]
  rfl

/-- There is one line more than there are line feeds. -/
theorem length_lines (h : EndsInLine s) : (lines s).length = s.toList.count '\n' + 1 := by
  obtain ⟨last, c, hpieces, hlast, -⟩ := h.exists_last_piece
  rw [lines, List.length_map, length_linesOfPieces hpieces hlast, length_splitAll]
  rfl

theorem lines_eq_singleton (h : EndsInLine s) (hfeed : hasLineFeed s = false) : lines s = [s] := by
  obtain ⟨c, hlast, -, -⟩ := h
  have hpiece : splitAll (· == '\n') s.toList = [s.toList] := by
    refine splitAll_of_none fun c hc => ?_
    rw [beq_eq_false_iff_ne]
    rintro rfl
    simp [hasLineFeed, hc] at hfeed
  rw [lines, hpiece, linesOfPieces_singleton (ne_nil_of_getLast? hlast), List.map_singleton,
    String.ofList_toList]

end EndsInLine

theorem endsInLine_trim {s : String} (h : trim s ≠ "") : EndsInLine (trim s) := by
  obtain ⟨c, hlast⟩ : ∃ c, (trim s).toList.getLast? = some c :=
    ⟨_, List.getLast?_eq_some_getLast (mt String.toList_eq_nil_iff.1 h)⟩
  have hblank : isBlank c = false := getLast?_trimEnds (by rwa [← toList_trim])
  refine ⟨c, hlast, ?_, ?_⟩ <;>
  · rintro rfl
    exact absurd hblank (by decide)

/-- Texts that are joined with line feeds fall apart into the lines of each. -/
theorem lines_intercalate {l : List String} (h : ∀ s ∈ l, EndsInLine s) :
    lines ("\n".intercalate l) = l.flatMap lines := by
  induction l with
  | nil => rfl
  | cons s l ih =>
      have hs := h s List.mem_cons_self
      have hrest := ih fun t ht => h t (List.mem_cons_of_mem s ht)
      by_cases hnil : l = []
      · subst hnil
        rw [String.intercalate_singleton, List.flatMap_singleton]
      · rw [String.intercalate_cons_of_ne_nil hnil, hs.lines_append_lineFeed, hrest,
          List.flatMap_cons]

theorem lines_of_singleLines {l : List String}
    (h : ∀ s ∈ l, EndsInLine s ∧ hasLineFeed s = false) : lines ("\n".intercalate l) = l := by
  rw [lines_intercalate fun s hs => (h s hs).1]
  induction l with
  | nil => rfl
  | cons s l ih =>
      obtain ⟨⟨hline, hfeed⟩, hrest⟩ := List.forall_mem_cons.1 h
      rw [List.flatMap_cons, hline.lines_eq_singleton hfeed, ih hrest]
      rfl

theorem length_flatMap_lines {l : List String} (h : ∀ s ∈ l, EndsInLine s) :
    (l.flatMap lines).length = l.length + (l.flatMap String.toList).count '\n' := by
  induction l with
  | nil => rfl
  | cons s l ih =>
      have hrest := ih fun t ht => h t (List.mem_cons_of_mem s ht)
      rw [List.flatMap_cons, List.length_append, (h s List.mem_cons_self).length_lines, hrest,
        List.flatMap_cons, List.count_append, List.length_cons]
      omega

/-- Joined texts have as many lines as there are texts only if each of them is a line. -/
theorem length_flatMap_lines_eq_iff {l : List String} (h : ∀ s ∈ l, EndsInLine s) :
    (l.flatMap lines).length = l.length ↔ ∀ s ∈ l, hasLineFeed s = false := by
  rw [length_flatMap_lines h, Nat.add_eq_left, List.count_eq_zero]
  simp [hasLineFeed]

end TimeSeries.Text
