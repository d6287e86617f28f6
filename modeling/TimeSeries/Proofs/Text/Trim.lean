import Mathlib.Data.List.TakeWhile
import TimeSeries.Proofs.Text.Encoded

/-!
# White space at the ends of a text

What `trim` removes is what stands in front of and behind the rest, and a text between white space
is trimmed as it is alone. Blank bytes that are removed from the ends of encoded text are white
space characters, so it makes no difference for the text whether they are removed first.
-/

namespace TimeSeries.Text

section Ends

variable {α : Type} {f : α → Bool} {l : List α}

theorem getLast?_trimEnds {a : α} (h : (trimEnds f l).getLast? = some a) : f a = false := by
  rw [trimEnds, List.getLast?_reverse] at h
  have hnot := List.head?_dropWhile_not f (l.dropWhile f).reverse
  rw [h] at hnot
  exact hnot

theorem head?_trimEnds {a : α} (h : (trimEnds f l).head? = some a) : f a = false := by
  rw [trimEnds, List.head?_reverse] at h
  obtain ⟨removed, hsplit⟩ := List.dropWhile_suffix f (l := (l.dropWhile f).reverse)
  have hhead : (l.dropWhile f).head? = some a := by
    rw [← List.getLast?_reverse, ← hsplit, List.getLast?_append, h]
    rfl
  have hnot := List.head?_dropWhile_not f l
  rw [hhead] at hnot
  exact hnot

/-- Nothing else than what satisfies the test is removed. -/
theorem exists_eq_append_trimEnds (f : α → Bool) (l : List α) :
    ∃ front back, l = front ++ (trimEnds f l ++ back) ∧ (∀ a ∈ front, f a = true) ∧
      ∀ a ∈ back, f a = true := by
  refine ⟨l.takeWhile f, ((l.dropWhile f).reverse.takeWhile f).reverse, ?_,
    fun a ha => List.mem_takeWhile_imp ha,
    fun a ha => List.mem_takeWhile_imp (List.mem_reverse.1 ha)⟩
  rw [trimEnds, ← List.reverse_append, List.takeWhile_append_dropWhile, List.reverse_reverse,
    List.takeWhile_append_dropWhile]

theorem trimEnds_append_left {front : List α} (h : ∀ a ∈ front, f a = true) (l : List α) :
    trimEnds f (front ++ l) = trimEnds f l := by
  rw [trimEnds, List.dropWhile_append_of_pos h, trimEnds]

theorem trimEnds_append_right {back : List α} (h : ∀ a ∈ back, f a = true) (l : List α) :
    trimEnds f (l ++ back) = trimEnds f l := by
  have hback : ∀ a ∈ back.reverse, f a = true := fun a ha => h a (List.mem_reverse.1 ha)
  rw [trimEnds, trimEnds, List.dropWhile_append]
  split
  · next hnil =>
      rw [List.isEmpty_iff.1 hnil, List.dropWhile_eq_nil_iff.2 h]
  · rw [List.reverse_append, List.dropWhile_append_of_pos hback]

theorem trimEnds_eq_nil (h : ∀ a ∈ l, f a = true) : trimEnds f l = [] := by
  rw [trimEnds, List.dropWhile_eq_nil_iff.2 h]
  rfl

end Ends

section Pieces

variable {α β : Type} {f : α → List β} {p : β → Bool}

theorem exists_dropWhile_flatMap (hf : ∀ a, (∀ b ∈ f a, p b = true) ∨ ∀ b ∈ f a, p b = false)
    (l : List α) : ∃ m : List α, (l.flatMap f).dropWhile p = m.flatMap f := by
  induction l with
  | nil => exact ⟨[], rfl⟩
  | cons a l ih =>
      obtain ⟨m, hm⟩ := ih
      rw [List.flatMap_cons]
      rcases hf a with hall | hnone
      · exact ⟨m, by rw [List.dropWhile_append_of_pos hall, hm]⟩
      · cases hcell : f a with
        | nil => exact ⟨m, by rw [List.nil_append, hm]⟩
        | cons b rest =>
            have hb : ¬p b = true := by simp [hnone b (hcell ▸ List.mem_cons_self)]
            refine ⟨a :: l, ?_⟩
            rw [List.cons_append, List.dropWhile_cons_of_neg hb, List.flatMap_cons, hcell,
              List.cons_append]

/-- Pieces that satisfy the test as a whole or nowhere are kept or removed as a whole. -/
theorem exists_trimEnds_flatMap (hf : ∀ a, (∀ b ∈ f a, p b = true) ∨ ∀ b ∈ f a, p b = false)
    (l : List α) : ∃ m : List α, trimEnds p (l.flatMap f) = m.flatMap f := by
  have hback : ∀ a, (∀ b ∈ (f a).reverse, p b = true) ∨ ∀ b ∈ (f a).reverse, p b = false := by
    simpa using hf
  obtain ⟨m, hm⟩ := exists_dropWhile_flatMap hf l
  obtain ⟨n, hn⟩ := exists_dropWhile_flatMap hback m.reverse
  refine ⟨n.reverse, ?_⟩
  rw [trimEnds, hm, List.reverse_flatMap]
  change ((m.reverse.flatMap fun a => (f a).reverse).dropWhile p).reverse = _
  rw [hn, List.reverse_flatMap]
  simp [Function.comp_def]

end Pieces

@[simp] theorem trim_trim (s : String) : trim (trim s) = trim s := by
  have hself : trimEnds isBlank (trimEnds isBlank s.toList) = trimEnds isBlank s.toList :=
    trimEnds_eq_self (fun _ ha => head?_trimEnds ha) (fun _ ha => getLast?_trimEnds ha)
  rw [trim, toList_trim, hself, ← trim]

theorem trim_of_forall {s : String} (h : ∀ c ∈ s.toList, isBlank c = false) : trim s = s :=
  trim_of_bare ⟨fun c hc => h c (List.mem_of_mem_head? hc), fun c hc =>
    h c (List.mem_of_getLast? hc)⟩

theorem trim_eq_empty {s : String} (h : ∀ c ∈ s.toList, isBlank c = true) : trim s = "" := by
  rw [trim, trimEnds_eq_nil h]

theorem trim_append_append {s t : String} (hs : ∀ c ∈ s.toList, isBlank c = true)
    (ht : ∀ c ∈ t.toList, isBlank c = true) (u : String) : trim (s ++ (u ++ t)) = trim u := by
  rw [trim, String.toList_append, String.toList_append, trimEnds_append_left hs,
    trimEnds_append_right ht, ← trim]

theorem utf8Bytes_append (s t : String) : utf8Bytes (s ++ t) = utf8Bytes s ++ utf8Bytes t := by
  rw [utf8Bytes_eq_flatMap, String.toList_append, List.flatMap_append, ← utf8Bytes_eq_flatMap,
    ← utf8Bytes_eq_flatMap]

theorem eq_utf8Bytes_of_utf8Text? {bytes : List UInt8} {s : String}
    (h : utf8Text? bytes = .ok s) : bytes = utf8Bytes s := by
  rw [utf8Text?] at h
  split at h
  · next t ht =>
      obtain rfl := Except.ok.inj h
      rw [String.fromUTF8?] at ht
      split at ht
      · obtain rfl := Option.some.inj ht
        rfl
      · cases ht
  · cases h

theorem utf8EncodeChar_of_isAsciiBlank {b : UInt8} (h : isAsciiBlank b = true) :
    ∃ c, isBlank c = true ∧ String.utf8EncodeChar c = [b] := by
  simp only [isAsciiBlank, Bool.or_eq_true, beq_iff_eq] at h
  rcases h with (((rfl | rfl) | rfl) | rfl) | rfl
  · exact ⟨'\t', by decide⟩
  · exact ⟨'\n', by decide⟩
  · exact ⟨Char.ofNat 0xC, by decide⟩
  · exact ⟨'\r', by decide⟩
  · exact ⟨' ', by decide⟩

/-- Blank bytes are the bytes of white space characters. -/
theorem exists_utf8Bytes_of_isAsciiBlank {bytes : List UInt8}
    (h : ∀ b ∈ bytes, isAsciiBlank b = true) :
    ∃ s : String, bytes = utf8Bytes s ∧ ∀ c ∈ s.toList, isBlank c = true := by
  induction bytes with
  | nil => exact ⟨"", rfl, by simp⟩
  | cons b bytes ih =>
      obtain ⟨s, rfl, hs⟩ := ih fun d hd => h d (List.mem_cons_of_mem b hd)
      obtain ⟨c, hc, hbyte⟩ := utf8EncodeChar_of_isAsciiBlank (h b List.mem_cons_self)
      refine ⟨String.ofList (c :: s.toList), ?_, by simpa [hc] using hs⟩
      rw [utf8Bytes_eq_flatMap (String.ofList _), String.toList_ofList, List.flatMap_cons, hbyte,
        ← utf8Bytes_eq_flatMap]
      rfl

/-- The text of bytes whose ends are trimmed is the same when it is trimmed itself. -/
theorem exists_utf8Bytes_of_trimEnds {bytes : List UInt8} {s : String}
    (h : trimEnds isAsciiBlank bytes = utf8Bytes s) :
    ∃ t : String, bytes = utf8Bytes t ∧ trim t = trim s := by
  obtain ⟨front, back, hbytes, hfront, hback⟩ := exists_eq_append_trimEnds isAsciiBlank bytes
  obtain ⟨u, rfl, hu⟩ := exists_utf8Bytes_of_isAsciiBlank hfront
  obtain ⟨v, rfl, hv⟩ := exists_utf8Bytes_of_isAsciiBlank hback
  refine ⟨u ++ (s ++ v), ?_, trim_append_append hu hv s⟩
  rw [hbytes, h, utf8Bytes_append, utf8Bytes_append]

/-- A blank byte is all of the encoding of a character. -/
theorem isAsciiBlank_utf8EncodeChar (c : Char) :
    (∀ b ∈ String.utf8EncodeChar c, isAsciiBlank b = true) ∨
      ∀ b ∈ String.utf8EncodeChar c, isAsciiBlank b = false := by
  by_cases h : c.toNat < 128
  · rw [utf8EncodeChar_of_lt h]
    simp
  · refine .inr fun b hb => ?_
    have hge := le_toNat_of_mem_utf8EncodeChar (Nat.not_lt.1 h) hb
    by_contra hblank
    simp only [isAsciiBlank, Bool.not_eq_false, Bool.or_eq_true, beq_iff_eq] at hblank
    rcases hblank with (((rfl | rfl) | rfl) | rfl) | rfl <;> exact absurd hge (by decide)

theorem utf8Bytes_injective {s t : String} (h : utf8Bytes s = utf8Bytes t) : s = t := by
  simpa using congrArg utf8Text? h

/-- Blank bytes are removed from the ends of encoded text as characters are, and what is left is the
same text when it is trimmed. -/
theorem exists_trimEnds_utf8Bytes (s : String) :
    ∃ t, trimEnds isAsciiBlank (utf8Bytes s) = utf8Bytes t ∧ trim t = trim s := by
  obtain ⟨l, hl⟩ := exists_trimEnds_flatMap isAsciiBlank_utf8EncodeChar s.toList
  have hbytes : trimEnds isAsciiBlank (utf8Bytes s) = utf8Bytes (String.ofList l) := by
    rw [utf8Bytes_eq_flatMap, hl, utf8Bytes_eq_flatMap, String.toList_ofList]
  obtain ⟨t, ht, htrim⟩ := exists_utf8Bytes_of_trimEnds hbytes
  exact ⟨_, hbytes, by rw [utf8Bytes_injective ht, htrim]⟩

end TimeSeries.Text
