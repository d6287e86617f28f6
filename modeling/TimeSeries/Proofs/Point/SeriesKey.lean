import Mathlib.Data.List.Basic
import TimeSeries.Point.Series

/-!
# Keys are read back

A receiver reads a key up to the first separator that has no backslash in front. A backslash in
front of a separator belongs to the separator, any other one stands for itself. As backslashes are
not escaped, a key that ends in one takes the separator behind it for its own: that is the only way
in which a key can be misread, and `readKey_escapeChars` excludes it.

So two series can share their key. Keys determine the measurement and the tags of those series in
which a backslash stands at the end of the last token only, since these are read back by
`readSeries`.
-/

namespace TimeSeries

/-- The tags that a line shows, in key order. -/
def writtenTags (tags : KeyMap String) : List (String × String) :=
  tags.toList.filter fun e => e.2 ≠ ""

namespace Wire

open Text

/-- The key in front of the first separator, without its escapes, and what follows it. -/
def readKey : List Char → List Char × List Char
  | [] => ([], [])
  | '\\' :: c :: rest =>
    if isKeySpecial c then ((c :: (readKey rest).1), (readKey rest).2)
    else ('\\' :: (readKey (c :: rest)).1, (readKey (c :: rest)).2)
  | c :: rest =>
    if isKeySpecial c then ([], c :: rest) else (c :: (readKey rest).1, (readKey rest).2)

def EndsInBackslash (l : List Char) : Prop := l.getLast? = some '\\'

instance (l : List Char) : Decidable (EndsInBackslash l) :=
  inferInstanceAs (Decidable (l.getLast? = some '\\'))

theorem endsInBackslash_cons {c : Char} {l : List Char} (hl : l ≠ []) :
    EndsInBackslash (c :: l) ↔ EndsInBackslash l := by
  rw [EndsInBackslash, List.getLast?_cons_of_ne_nil hl, EndsInBackslash]

theorem length_readKey (l : List Char) : (readKey l).2.length ≤ l.length := by
  fun_induction readKey l with
  | case1 => exact Nat.le_refl 0
  | case2 c rest hc ih => exact Nat.le_succ_of_le (Nat.le_succ_of_le ih)
  | case3 c rest hc ih => exact Nat.le_succ_of_le ih
  | case4 c rest _ hc => exact Nat.le_refl _
  | case5 c rest _ hc ih => exact Nat.le_succ_of_le ih

theorem readKey_of_special {rest : List Char} (h : ∀ c ∈ rest.head?, isKeySpecial c = true) :
    readKey rest = ([], rest) := by
  cases rest with
  | nil => rfl
  | cons c rest =>
      have hc : isKeySpecial c = true := h c rfl
      have hne : c ≠ '\\' := by
        rintro rfl
        exact absurd hc (by decide)
      rw [readKey.eq_def]
      split
      · next heq => cases heq
      · next heq => exact absurd (List.head_eq_of_cons_eq heq) hne
      · next heq =>
          obtain ⟨rfl, rfl⟩ := List.cons.inj heq
          rw [if_pos hc]

theorem head?_equals (rest : List Char) : ∀ c ∈ ('=' :: rest).head?, isKeySpecial c = true := by
  rintro c hc
  obtain rfl : '=' = c := by simpa using hc
  decide

theorem readKey_cons {c : Char} (hc : isKeySpecial c = false) {rest : List Char}
    (h : c = '\\' → ∀ d ∈ rest.head?, isKeySpecial d = false) :
    readKey (c :: rest) = (c :: (readKey rest).1, (readKey rest).2) := by
  rw [readKey.eq_def]
  split
  · next heq => cases heq
  · next d more heq =>
      obtain ⟨rfl, rfl⟩ := List.cons.inj heq
      rw [if_neg (by simpa using h rfl d rfl)]
  · next heq =>
      obtain ⟨rfl, rfl⟩ := List.cons.inj heq
      rw [if_neg (by simp [hc])]

theorem head?_escapeChars (l : List Char) :
    ∀ d ∈ (escapeChars isKeySpecial l).head?, isKeySpecial d = false := by
  intro d hd
  cases l with
  | nil => cases hd
  | cons c l =>
      rw [escapeChars_cons] at hd
      by_cases hc : isKeySpecial c = true
      · rw [if_pos hc] at hd
        obtain rfl : '\\' = d := by simpa using hd
        decide
      · rw [if_neg hc] at hd
        obtain rfl : c = d := by simpa using hd
        simpa using hc

/-- A key is read back in front of a separator, unless it ends in a backslash, and at the end of the
text even then. -/
theorem readKey_escapeChars {rest : List Char} (hrest : ∀ c ∈ rest.head?, isKeySpecial c = true)
    (l : List Char) (hl : rest = [] ∨ ¬EndsInBackslash l) :
    readKey (escapeChars isKeySpecial l ++ rest) = (l, rest) := by
  induction l with
  | nil => exact readKey_of_special hrest
  | cons c l ih =>
      have htail : rest = [] ∨ ¬EndsInBackslash l := by
        rcases hl with hnil | hclear
        · exact Or.inl hnil
        · by_cases hnil : l = []
          · subst hnil
            exact Or.inr (by decide)
          · exact Or.inr fun h => hclear ((endsInBackslash_cons hnil).2 h)
      rw [escapeChars_cons]
      by_cases hc : isKeySpecial c = true
      · rw [if_pos hc, List.append_assoc]
        simp only [List.cons_append, List.nil_append, readKey, if_pos hc, ih htail]
      · rw [if_neg hc, List.append_assoc, List.cons_append, List.nil_append,
          readKey_cons (by simpa using hc), ih htail]
        -- what follows a backslash is no separator: an escaped key, or the end of the text
        rintro rfl d hd
        by_cases hnil : l = []
        · subst hnil
          rcases hl with rfl | hclear
          · cases hd
          · exact absurd rfl hclear
        · have hne : escapeChars isKeySpecial l ≠ [] := by
            obtain ⟨e, m, rfl⟩ := List.exists_cons_of_ne_nil hnil
            rw [escapeChars_cons]
            split <;> exact List.cons_ne_nil _ _
          rw [List.head?_append_of_ne_nil _ hne] at hd
          exact head?_escapeChars l d hd

/-- The tags that follow one another from the front, each behind a comma, and what follows them. -/
def readTags : List Char → Option (List (String × String) × List Char)
  | ',' :: l =>
    match _h : readKey l with
    | (key, '=' :: rest) =>
      (readTags (readKey rest).2).map fun r =>
        ((String.ofList key, String.ofList (readKey rest).1) :: r.1, r.2)
    | _ => none
  | l => some ([], l)
termination_by l => l.length
decreasing_by
  have hkey := length_readKey l
  have hvalue := length_readKey rest
  simp only [_h, List.length_cons] at hkey ⊢
  omega

def tagText (e : String × String) : List Char :=
  ',' :: (escapeChars isKeySpecial e.1.toList ++ '=' :: escapeChars isKeySpecial e.2.toList)

theorem toList_seriesKey (measurement : String) (tags : KeyMap String) :
    (seriesKey measurement tags).toList =
      escapeChars isKeySpecial measurement.toList ++
        (writtenTags tags).flatMap tagText := by
  rw [seriesKey, String.toList_append, escapeKey, toList_escape]
  congr 1
  rw [← writtenTags]
  induction writtenTags tags with
  | nil => rfl
  | cons e l ih =>
      rw [List.map_cons, List.flatMap_cons, ← ih, String.join_cons, String.toList_append]
      simp [tagText, escapeKey]

theorem readTags_cons {key l rest : List Char}
    (hkey : readKey l = (key, '=' :: rest)) :
    readTags (',' :: l) =
      (readTags (readKey rest).2).map fun r =>
        ((String.ofList key, String.ofList (readKey rest).1) :: r.1, r.2) := by
  rw [readTags]
  split
  · next h =>
      obtain ⟨rfl, htail⟩ := Prod.mk.inj (hkey.symm.trans h)
      obtain ⟨-, rfl⟩ := List.cons.inj htail
      rfl
  · next h => exact absurd hkey (h _ _)

theorem readTags_nil : readTags [] = some ([], []) := by
  rw [readTags.eq_def]

theorem readTags_of_space {rest : List Char} : readTags (' ' :: rest) = some ([], ' ' :: rest) := by
  rw [readTags.eq_def]
  rfl

theorem tagTexts_cons (key value : String) (tags : List (String × String)) (rest : List Char) :
    ((key, value) :: tags).flatMap tagText ++ rest =
      ',' :: (escapeChars isKeySpecial key.toList ++
        '=' :: (escapeChars isKeySpecial value.toList ++ (tags.flatMap tagText ++ rest))) := by
  simp [tagText]

theorem head?_tagTexts {tags : List (String × String)} {rest : List Char}
    (hrest : rest = [] ∨ ∃ more, rest = ' ' :: more) :
    ∀ c ∈ (tags.flatMap tagText ++ rest).head?, isKeySpecial c = true := by
  intro c hc
  cases tags with
  | nil =>
      rcases hrest with rfl | ⟨more, rfl⟩
      · cases hc
      · obtain rfl : ' ' = c := by simpa using hc
        decide
  | cons e tags =>
      obtain rfl : ',' = c := by simpa [tagText] using hc
      decide

theorem mem_dropLast_cons {α : Type} (a : α) {b : α} {l : List α} (h : b ∈ l.dropLast) :
    b ∈ (a :: l).dropLast := by
  cases l with
  | nil => cases h
  | cons c l => exact List.mem_cons_of_mem a h

/-- The texts between the separators of some tags, in their order. -/
def tagTokens (tags : List (String × String)) : List String := tags.flatMap fun e => [e.1, e.2]

/-- Tags are read back if no backslash stands in front of a separator. -/
theorem readTags_tagTexts {tags : List (String × String)} {rest : List Char}
    (hrest : rest = [] ∨ ∃ more, rest = ' ' :: more)
    (hclear : ∀ t ∈ (tagTokens tags).dropLast, ¬EndsInBackslash t.toList)
    (hlast : rest = [] ∨ ∀ t ∈ (tagTokens tags).getLast?, ¬EndsInBackslash t.toList) :
    readTags (tags.flatMap tagText ++ rest) = some (tags, rest) := by
  induction tags with
  | nil =>
      rcases hrest with rfl | ⟨more, rfl⟩
      · exact readTags_nil
      · exact readTags_of_space
  | cons e tags ih =>
      obtain ⟨key, value⟩ := e
      have htokens : tagTokens ((key, value) :: tags) = key :: value :: tagTokens tags := rfl
      rw [htokens, List.dropLast_cons_cons] at hclear
      rw [htokens] at hlast
      have hvalue :
          readKey (escapeChars isKeySpecial value.toList ++ (tags.flatMap tagText ++ rest)) =
            (value.toList, tags.flatMap tagText ++ rest) := by
        refine readKey_escapeChars (head?_tagTexts hrest) value.toList ?_
        cases tags with
        | nil =>
            rcases hlast with hnil | hlast
            · exact Or.inl hnil
            · exact Or.inr (hlast value rfl)
        | cons d tags =>
            exact Or.inr (hclear value (List.mem_cons_of_mem key List.mem_cons_self))
      have hkey : readKey (escapeChars isKeySpecial key.toList ++
            '=' :: (escapeChars isKeySpecial value.toList ++ (tags.flatMap tagText ++ rest))) =
          (key.toList,
            '=' :: (escapeChars isKeySpecial value.toList ++ (tags.flatMap tagText ++ rest))) :=
        readKey_escapeChars (head?_equals _) key.toList (Or.inr (hclear key List.mem_cons_self))
      have hmore : readTags (tags.flatMap tagText ++ rest) = some (tags, rest) := by
        refine ih (fun t ht => hclear t (List.mem_cons_of_mem key ?_))
          (hlast.imp_right fun h t ht => h t ?_)
        · exact mem_dropLast_cons value ht
        · rw [List.getLast?_cons, List.getLast?_cons, Option.mem_def.1 ht]
          rfl
      rw [tagTexts_cons, readTags_cons hkey, hvalue, hmore]
      simp

/-- The measurement and the tags that a text names, if it is the key of a series and no more. -/
def readSeries (l : List Char) : Option (String × List (String × String)) :=
  (readTags (readKey l).2).bind fun r =>
    if r.2 = [] then some (String.ofList (readKey l).1, r.1) else none

end Wire

namespace Series

open Text Wire

/-- No backslash stands in front of a separator of the key. -/
def Legible (s : Series) : Prop :=
  ∀ t ∈ (s.measurement :: tagTokens (writtenTags s.tags)).dropLast, ¬EndsInBackslash t.toList

instance (s : Series) : Decidable s.Legible :=
  inferInstanceAs (Decidable (∀ t ∈ (_ : List String), ¬EndsInBackslash t.toList))

theorem key_of_new {measurement : String} {tags : List (String × String)} {s : Series}
    (h : new measurement tags = .ok s) : s.key = seriesKey s.measurement s.tags := by
  rw [new] at h
  split at h
  · cases h
  · dsimp only at h
    split at h
    · cases h
    · cases h
      rfl

theorem readSeries_key {measurement : String} {tags : List (String × String)} {s : Series}
    (h : new measurement tags = .ok s) (hlegible : s.Legible) :
    readSeries s.key.toList = some (s.measurement, writtenTags s.tags) := by
  have htags : readTags ((writtenTags s.tags).flatMap tagText ++ []) =
      some (writtenTags s.tags, []) :=
    readTags_tagTexts (Or.inl rfl) (fun t ht => hlegible t (mem_dropLast_cons s.measurement ht))
      (Or.inl rfl)
  have hmeasurement : readKey (escapeChars isKeySpecial s.measurement.toList ++
        ((writtenTags s.tags).flatMap tagText ++ [])) =
      (s.measurement.toList, (writtenTags s.tags).flatMap tagText ++ []) := by
    refine readKey_escapeChars (head?_tagTexts (Or.inl rfl)) s.measurement.toList ?_
    by_cases hnil : writtenTags s.tags = []
    · rw [hnil]
      exact Or.inl rfl
    · obtain ⟨e, l, hcons⟩ := List.exists_cons_of_ne_nil hnil
      refine Or.inr (hlegible s.measurement ?_)
      rw [hcons]
      exact List.mem_cons_self
  have hkey : s.key.toList = escapeChars isKeySpecial s.measurement.toList ++
      ((writtenTags s.tags).flatMap tagText ++ []) := by
    rw [key_of_new h, toList_seriesKey, List.append_nil]
  rw [readSeries, hkey, hmeasurement, htags]
  simp

/-- Two series can share their key, which is then the same beginning of all their lines: a backslash
at the end of a token makes the separator behind it a part of the token. -/
theorem key_not_injective :
    ¬∀ (m m' : String) (tags tags' : List (String × String)) (s s' : Series),
      new m tags = .ok s → new m' tags' = .ok s' → s.key = s'.key →
        s.measurement = s'.measurement ∧ writtenTags s.tags = writtenTags s'.tags := by
  intro h
  have hsame := h "m\\" "m,a=b" [("a\\", "b")] [] _ _ rfl rfl (by decide)
  exact absurd hsame.1 (by decide)

/-- Series with the same key have the same measurement and show the same tags, if in the key of both
no backslash stands in front of a separator. -/
theorem eq_of_key_eq {m m' : String} {tags tags' : List (String × String)} {s s' : Series}
    (hs : new m tags = .ok s) (hs' : new m' tags' = .ok s') (hlegible : s.Legible)
    (hlegible' : s'.Legible) (hkey : s.key = s'.key) :
    s.measurement = s'.measurement ∧ writtenTags s.tags = writtenTags s'.tags := by
  have hread := readSeries_key hs hlegible
  have hread' := readSeries_key hs' hlegible'
  rw [hkey, hread'] at hread
  simpa [eq_comm] using hread

theorem eq_of_key_eq_of_empty_value :
    ∃ s s' : Series, new "m, x" [("a\\b", "v\\"), ("e", "")] = .ok s ∧
      new "m, x" [("a\\b", "v\\")] = .ok s' ∧ s.tags ≠ s'.tags ∧ s.Legible ∧ s'.Legible ∧
      s.key = s'.key ∧ s.measurement = s'.measurement ∧ writtenTags s.tags = writtenTags s'.tags :=
  ⟨_, _, rfl, rfl, by decide, by decide, by decide, by decide,
    @eq_of_key_eq "m, x" "m, x" [("a\\b", "v\\"), ("e", "")] [("a\\b", "v\\")] _ _ rfl rfl
      (by decide) (by decide) (by decide)⟩

end Series

end TimeSeries
