import TimeSeries.Proofs.Number.Literal
import TimeSeries.Proofs.Point.SeriesKey
import TimeSeries.Proofs.Text.Run

/-!
# Lines are read back

`Wire.readLine` reads the grammar `measurement[,tag=value]* field=value[,field=value]*[ timestamp]`.
The kind of a field shows in its text: quotes, one of two words, a letter behind an integer, and a
decimal number for everything else. A quoted text may hold any character, so it is read before the
line is cut at commas and spaces.

Every piece of a line is read back in front of what can follow it, and a line is its pieces one
behind the other. The condition on backslashes is that of keys: `SeriesKey` says why.
-/

namespace TimeSeries

namespace Wire

open Text

/-- The value of a field as it shows in a line, where a float is a text. -/
inductive WireValue where
  | bool (b : Bool)
  | integer (i : Int64)
  | unsigned (u : UInt64)
  | float (text : String)
  | string (s : String)
deriving DecidableEq, Repr

/-- What a line shows of a value. -/
def WireValue.ofField : FieldValue → WireValue
  | .bool b => .bool b
  | .integer i => .integer i
  | .unsigned u => .unsigned u
  | .float x => .float (Number.floatLiteral x)
  | .string s => .string s

/-- What a line says. -/
structure Reading where
  measurement : String
  tags : List (String × String)
  fields : List (String × WireValue)
  time : Option Int64
deriving DecidableEq, Repr

/-- The text up to the closing quote, without its escapes, and what follows the quote. -/
def readQuoted : List Char → Option (List Char × List Char)
  | [] => none
  | '"' :: rest => some ([], rest)
  | '\\' :: c :: rest => (readQuoted rest).map fun r => (c :: r.1, r.2)
  | c :: rest => (readQuoted rest).map fun r => (c :: r.1, r.2)

/-- The value that a text without quotes stands for. -/
def readWord (l : List Char) : Option WireValue :=
  if l = ['t', 'r', 'u', 'e'] then some (.bool true)
  else if l = ['f', 'a', 'l', 's', 'e'] then some (.bool false)
  else if l.getLast? = some 'i' then
    (Number.readInt64 (String.ofList l.dropLast)).toOption.map .integer
  else if l.getLast? = some 'u' then
    (Number.readUInt64 (String.ofList l.dropLast)).toOption.map .unsigned
  else if Number.isDecimal l then some (.float (String.ofList l))
  else none

/-- The character ends a text without quotes. -/
def endsWord (c : Char) : Bool := c == ',' || c == ' '

/-- The value of a field, and what follows it. -/
def readValue : List Char → Option (WireValue × List Char)
  | '"' :: rest => (readQuoted rest).map fun r => (.string (String.ofList r.1), r.2)
  | l =>
    (readWord (l.takeWhile fun c => !endsWord c)).map fun v => (v, l.dropWhile fun c => !endsWord c)

theorem length_readQuoted {l : List Char} {r : List Char × List Char} (h : readQuoted l = some r) :
    r.2.length ≤ l.length := by
  induction l using readQuoted.induct generalizing r with
  | case1 => cases h
  | case2 rest =>
      obtain rfl := Option.some.inj h
      exact Nat.le_succ _
  | case3 c rest ih =>
      obtain ⟨q, hq, rfl⟩ := Option.map_eq_some_iff.1 h
      have := ih hq
      simp only [List.length_cons]
      omega
  | case4 c rest hquote hescape ih =>
      rw [readQuoted] at h
      · obtain ⟨q, hq, rfl⟩ := Option.map_eq_some_iff.1 h
        have := ih hq
        exact Nat.le_succ_of_le this
      · exact hquote
      · exact hescape

theorem length_readValue {l : List Char} {r : WireValue × List Char} (h : readValue l = some r) :
    r.2.length ≤ l.length := by
  rw [readValue.eq_def] at h
  split at h
  · obtain ⟨q, hq, rfl⟩ := Option.map_eq_some_iff.1 h
    exact Nat.le_succ_of_le (length_readQuoted hq)
  · obtain ⟨v, -, rfl⟩ := Option.map_eq_some_iff.1 h
    exact (List.dropWhile_sublist _).length_le

def readField (l : List Char) : Option ((String × WireValue) × List Char) :=
  match (readKey l).2 with
  | '=' :: rest => (readValue rest).map fun r => ((String.ofList (readKey l).1, r.1), r.2)
  | _ => none

theorem length_readField {l : List Char} {r : (String × WireValue) × List Char}
    (h : readField l = some r) : r.2.length < l.length := by
  have hkey := length_readKey l
  rw [readField] at h
  split at h
  · next heq =>
      obtain ⟨q, hq, rfl⟩ := Option.map_eq_some_iff.1 h
      have hvalue := length_readValue hq
      rw [heq, List.length_cons] at hkey
      exact Nat.lt_of_le_of_lt hvalue hkey
  · cases h

/-- The fields with commas between them, and what follows the last one. -/
def readFields (l : List Char) : Option (List (String × WireValue) × List Char) :=
  match _h : readField l with
  | some (field, ',' :: more) => (readFields more).map fun r => (field :: r.1, r.2)
  | some (field, rest) => some ([field], rest)
  | none => none
termination_by l.length
decreasing_by
  have hfield := length_readField _h
  rw [List.length_cons] at hfield
  omega

/-- The timestamp behind the fields, if there is one. -/
def readTime : List Char → Option (Option Int64)
  | [] => some none
  | ' ' :: rest => (Number.readInt64 (String.ofList rest)).toOption.map some
  | _ => none

/-- What a line says, if it is a line from its first character to its last one. -/
def readLine (l : List Char) : Option Reading :=
  match readTags (readKey l).2 with
  | some (tags, ' ' :: rest) =>
    (readFields rest).bind fun r =>
      (readTime r.2).map fun time => ⟨String.ofList (readKey l).1, tags, r.1, time⟩
  | _ => none

theorem readQuoted_escapeChars (l rest : List Char) :
    readQuoted (escapeChars isQuoteSpecial l ++ '"' :: rest) = some (l, rest) := by
  induction l with
  | nil => rfl
  | cons c l ih =>
      rw [escapeChars_cons]
      by_cases hc : isQuoteSpecial c = true
      · rw [if_pos hc]
        simp only [List.cons_append, List.nil_append, readQuoted, ih, Option.map_some]
      · rw [if_neg hc, List.append_assoc, List.cons_append, List.nil_append]
        simp only [isQuoteSpecial, Bool.or_eq_true, beq_iff_eq, not_or] at hc
        rw [readQuoted, ih, Option.map_some]
        · exact hc.1
        · exact fun _ _ heq => absurd heq hc.2

/-- A text without commas, spaces and quotes is read up to the next comma or space. -/
theorem readValue_of_word {word : List Char} (hword : ∀ c ∈ word, endsWord c = false ∧ c ≠ '"')
    (hne : word ≠ []) {rest : List Char} (hrest : ∀ c ∈ rest.head?, endsWord c = true)
    {v : WireValue} (hv : readWord word = some v) : readValue (word ++ rest) = some (v, rest) := by
  have hbefore : ∀ c ∈ word, (!endsWord c) = true := fun c hc => by rw [(hword c hc).1]; rfl
  have hends : ∀ c ∈ rest.head?, (!endsWord c) = false := fun c hc => by rw [hrest c hc]; rfl
  have htake := takeWhile_append_stop hbefore hends
  have hdrop := dropWhile_append_stop hbefore hends
  obtain ⟨c, l, rfl⟩ := List.exists_cons_of_ne_nil hne
  rw [readValue.eq_def]
  split
  · next heq =>
      exact absurd (List.head_eq_of_cons_eq heq) (hword c List.mem_cons_self).2
  · rw [htake, hdrop, hv, Option.map_some]

def isNumberChar (c : Char) : Bool := Number.isDigit c || c == '.' || c == '-'

theorem endsWord_of_isNumberChar {c : Char} (h : isNumberChar c = true) :
    endsWord c = false ∧ c ≠ '"' := by
  constructor
  · by_contra hends
    simp only [endsWord, Bool.not_eq_false, Bool.or_eq_true, beq_iff_eq] at hends
    rcases hends with rfl | rfl <;> exact absurd h (by decide)
  · rintro rfl
    exact absurd h (by decide)

theorem isNumberChar_of_mem_toDigits {n : Nat} {c : Char} (h : c ∈ Nat.toDigits 10 n) :
    isNumberChar c = true := by
  rw [isNumberChar, Number.isDigit_of_mem_toDigits h]
  rfl

theorem isNumberChar_of_mem_toString {i : Int} {c : Char} (h : c ∈ (toString i).toList) :
    isNumberChar c = true := by
  cases i with
  | ofNat n =>
      rw [Number.toList_toString_ofNat] at h
      exact isNumberChar_of_mem_toDigits h
  | negSucc n =>
      rw [Number.toList_toString_negSucc] at h
      rcases List.mem_cons.1 h with rfl | h
      · decide
      · exact isNumberChar_of_mem_toDigits h

theorem isNumberChar_of_isDecimal {l : List Char} (hl : Number.isDecimal l = true) {c : Char}
    (h : c ∈ l) : isNumberChar c = true := by
  rcases Number.of_mem_of_isDecimal hl h with hdigit | rfl | rfl
  · rw [isNumberChar, hdigit]
    rfl
  · decide
  · decide

theorem readWord_concat_i (l : List Char) :
    readWord (l ++ ['i']) = (Number.readInt64 (String.ofList l)).toOption.map .integer := by
  have hword : ∀ w : List Char, w.getLast? ≠ some 'i' → l ++ ['i'] ≠ w := by
    rintro w hw rfl
    exact hw List.getLast?_concat
  rw [readWord, if_neg (hword _ (by decide)), if_neg (hword _ (by decide)),
    if_pos List.getLast?_concat, List.dropLast_concat]

theorem readWord_concat_u (l : List Char) :
    readWord (l ++ ['u']) = (Number.readUInt64 (String.ofList l)).toOption.map .unsigned := by
  have hword : ∀ w : List Char, w.getLast? ≠ some 'u' → l ++ ['u'] ≠ w := by
    rintro w hw rfl
    exact hw List.getLast?_concat
  rw [readWord, if_neg (hword _ (by decide)), if_neg (hword _ (by decide)), List.getLast?_concat,
    if_neg (by decide), if_pos rfl, List.dropLast_concat]

theorem readWord_of_isDecimal {l : List Char} (hl : Number.isDecimal l = true) :
    readWord l = some (.float (String.ofList l)) := by
  have hchar : ∀ c ∈ l, isNumberChar c = true := fun c => isNumberChar_of_isDecimal hl
  have hlast : ∀ c, isNumberChar c = false → l.getLast? ≠ some c := by
    intro c hc h
    rw [hchar c (List.mem_of_getLast? h)] at hc
    cases hc
  have hword : ∀ (c : Char) (w : List Char), isNumberChar c = false → l ≠ c :: w := by
    rintro c w hc rfl
    rw [hchar c List.mem_cons_self] at hc
    cases hc
  rw [readWord, if_neg (hword 't' _ rfl), if_neg (hword 'f' _ rfl), if_neg (hlast 'i' rfl),
    if_neg (hlast 'u' rfl), if_pos hl]

/-- A number with a letter behind it is read up to the next comma or space. -/
theorem readValue_of_number {l : List Char} (hl : ∀ c ∈ l, isNumberChar c = true) {letter : Char}
    (hletter : endsWord letter = false ∧ letter ≠ '"') {rest : List Char}
    (hrest : ∀ c ∈ rest.head?, endsWord c = true) {v : WireValue}
    (hv : readWord (l ++ [letter]) = some v) :
    readValue (l ++ [letter] ++ rest) = some (v, rest) := by
  refine readValue_of_word ?_ (List.concat_ne_nil _ _) hrest hv
  intro c hc
  rcases List.mem_append.1 hc with hc | hc
  · exact endsWord_of_isNumberChar (hl c hc)
  · rw [List.mem_singleton.1 hc]
    exact hletter

/-- The value of a field is read back in front of a comma, a space and the end of the line. -/
theorem readValue_lineText {v : FieldValue} (hv : v.isWritable = true) {rest : List Char}
    (hrest : ∀ c ∈ rest.head?, endsWord c = true) :
    readValue (v.lineText.toList ++ rest) = some (WireValue.ofField v, rest) := by
  cases v with
  | bool b =>
      cases b
      · have hword : ∀ c ∈ ['f', 'a', 'l', 's', 'e'], endsWord c = false ∧ c ≠ '"' := by
          simp [endsWord]
        exact readValue_of_word hword (List.cons_ne_nil _ _) hrest rfl
      · have hword : ∀ c ∈ ['t', 'r', 'u', 'e'], endsWord c = false ∧ c ≠ '"' := by
          simp [endsWord]
        exact readValue_of_word hword (List.cons_ne_nil _ _) hrest rfl
  | integer i =>
      have htext : (FieldValue.integer i).lineText.toList = (toString i.toInt).toList ++ ['i'] :=
        String.toList_append
      rw [htext]
      apply readValue_of_number
      · exact fun c hc => isNumberChar_of_mem_toString hc
      · decide
      · exact hrest
      · rw [readWord_concat_i, String.ofList_toList, Number.readInt64_toString]
        rfl
  | unsigned u =>
      have htext : (FieldValue.unsigned u).lineText.toList = (toString u.toNat).toList ++ ['u'] :=
        String.toList_append
      rw [htext]
      apply readValue_of_number
      · intro c hc
        rw [Number.toList_toString_nat] at hc
        exact isNumberChar_of_mem_toDigits hc
      · decide
      · exact hrest
      · rw [readWord_concat_u, String.ofList_toList, Number.readUInt64_toString]
        rfl
  | float x =>
      have hdecimal := Number.isDecimal_floatLiteral hv
      refine readValue_of_word ?_ ?_ hrest ?_
      · exact fun c hc => endsWord_of_isNumberChar (isNumberChar_of_isDecimal hdecimal hc)
      · intro hnil
        rw [FieldValue.lineText] at hnil
        rw [hnil] at hdecimal
        cases hdecimal
      · rw [FieldValue.lineText, readWord_of_isDecimal hdecimal, String.ofList_toList]
        rfl
  | string s =>
      have htext : (FieldValue.string s).lineText.toList ++ rest =
          '"' :: (escapeChars isQuoteSpecial s.toList ++ '"' :: rest) := by
        rw [FieldValue.lineText, toList_quote]
        simp
      rw [htext, readValue, readQuoted_escapeChars, Option.map_some, String.ofList_toList]
      rfl

theorem readFields_cons {l more : List Char} {field : String × WireValue}
    (h : readField l = some (field, ',' :: more)) :
    readFields l = (readFields more).map fun r => (field :: r.1, r.2) := by
  rw [readFields]
  split
  · next heq =>
      obtain ⟨rfl, htail⟩ := Prod.mk.inj (Option.some.inj (h.symm.trans heq))
      obtain ⟨-, rfl⟩ := List.cons.inj htail
      rfl
  · next hno heq =>
      obtain ⟨rfl, rfl⟩ := Prod.mk.inj (Option.some.inj (h.symm.trans heq))
      exact (hno _ rfl).elim
  · next heq =>
      rw [h] at heq
      cases heq

theorem readFields_last {l rest : List Char} {field : String × WireValue}
    (h : readField l = some (field, rest)) (hrest : ∀ more, rest ≠ ',' :: more) :
    readFields l = some ([field], rest) := by
  rw [readFields]
  split
  · next heq =>
      obtain ⟨rfl, rfl⟩ := Prod.mk.inj (Option.some.inj (h.symm.trans heq))
      exact absurd rfl (hrest _)
  · next heq =>
      obtain ⟨rfl, rfl⟩ := Prod.mk.inj (Option.some.inj (h.symm.trans heq))
      rfl
  · next heq =>
      rw [h] at heq
      cases heq

theorem readField_fieldText {e : String × FieldValue} (hkey : ¬EndsInBackslash e.1.toList)
    (hvalue : e.2.isWritable = true) {rest : List Char}
    (hrest : ∀ c ∈ rest.head?, endsWord c = true) :
    readField ((fieldText e).toList ++ rest) = some ((e.1, WireValue.ofField e.2), rest) := by
  have htext : (fieldText e).toList ++ rest =
      escapeChars isKeySpecial e.1.toList ++ '=' :: (e.2.lineText.toList ++ rest) := by
    simp [fieldText, escapeKey]
  have hread := readKey_escapeChars (head?_equals (e.2.lineText.toList ++ rest)) e.1.toList
    (Or.inr hkey)
  simp only [htext, readField, hread, readValue_lineText hvalue hrest, Option.map_some,
    String.ofList_toList]

theorem readFields_fieldTexts {fields : List (String × FieldValue)} (hne : fields ≠ [])
    (hkey : ∀ e ∈ fields, ¬EndsInBackslash e.1.toList)
    (hvalue : ∀ e ∈ fields, e.2.isWritable = true) {rest : List Char}
    (hrest : rest = [] ∨ ∃ more, rest = ' ' :: more) :
    readFields ((",".intercalate (fields.map fieldText)).toList ++ rest) =
      some (fields.map fun e => (e.1, WireValue.ofField e.2), rest) := by
  have hends : ∀ c ∈ rest.head?, endsWord c = true := by
    rcases hrest with rfl | ⟨more, rfl⟩
    · exact fun c hc => by cases hc
    · rintro c hc
      obtain rfl : ' ' = c := by simpa using hc
      decide
  induction fields with
  | nil => exact absurd rfl hne
  | cons e fields ih =>
      have hkey_e := hkey e List.mem_cons_self
      have hvalue_e := hvalue e List.mem_cons_self
      by_cases hnil : fields = []
      · subst hnil
        rw [List.map_singleton, String.intercalate_singleton]
        refine readFields_last (readField_fieldText hkey_e hvalue_e hends) ?_
        rintro more rfl
        rcases hrest with h | ⟨more, h⟩ <;> cases h
      · have htexts : fields.map fieldText ≠ [] := by simpa using hnil
        have hmore := ih hnil (fun d hd => hkey d (List.mem_cons_of_mem e hd))
          (fun d hd => hvalue d (List.mem_cons_of_mem e hd))
        have htext : (",".intercalate ((e :: fields).map fieldText)).toList ++ rest =
            (fieldText e).toList ++
              ',' :: ((",".intercalate (fields.map fieldText)).toList ++ rest) := by
          rw [List.map_cons, String.intercalate_cons_of_ne_nil htexts]
          simp
        have hcomma : ∀ c ∈ (',' :: ((",".intercalate (fields.map fieldText)).toList ++
            rest)).head?, endsWord c = true := by simp [endsWord]
        rw [htext, readFields_cons (readField_fieldText hkey_e hvalue_e hcomma), hmore]
        rfl

theorem readTime_timeText (t : Option Timestamp) (p : Precision) :
    readTime (timeText t p).toList = some (t.map fun t => t.toPrecision p) := by
  cases t with
  | none => rfl
  | some t =>
      have htext : (timeText (some t) p).toList =
          ' ' :: (toString (t.toPrecision p).toInt).toList :=
        String.toList_append
      rw [htext, readTime, String.ofList_toList, Number.readInt64_toString]
      rfl

end Wire

namespace Point

open Text Wire

theorem line_eq (x : Point) (p : Precision) (h : writableFields x.fields ≠ []) :
    ∃ line, x.line p = .ok line ∧
      line.toList = escapeChars isKeySpecial x.measurement.toList ++
        ((writtenTags x.tags).flatMap tagText ++
          ' ' :: ((",".intercalate ((writableFields x.fields).map fieldText)).toList ++
            (timeText x.timestamp p).toList)) := by
  obtain ⟨e, l, hcons⟩ := List.exists_cons_of_ne_nil h
  rw [line, fieldSet, if_neg x.fieldKeys_ne, hcons]
  refine ⟨_, rfl, ?_⟩
  rw [String.toList_append, String.toList_append, String.toList_append, toList_seriesKey]
  simp only [List.append_assoc]
  rfl

/-- No backslash stands in front of a separator in the lines of the point. -/
structure Legible (x : Point) : Prop where
  measurement : ¬EndsInBackslash x.measurement.toList
  tags : ∀ e ∈ x.tags.toList, e.2 ≠ "" → ¬EndsInBackslash e.1.toList ∧ ¬EndsInBackslash e.2.toList
  fields : ∀ e ∈ writableFields x.fields, ¬EndsInBackslash e.1.toList

theorem Legible.tagTokens {x : Point} (h : x.Legible) :
    ∀ t ∈ tagTokens (writtenTags x.tags), ¬EndsInBackslash t.toList := by
  intro t ht
  obtain ⟨e, he, hmem⟩ := List.mem_flatMap.1 ht
  obtain ⟨he, hvalue⟩ := List.mem_filter.1 he
  have hboth := h.tags e he (by simpa using hvalue)
  simp only [List.mem_cons, List.not_mem_nil, or_false] at hmem
  rcases hmem with rfl | rfl
  · exact hboth.1
  · exact hboth.2

/-- The line of a point is read back to what the point can show: its measurement, its tags with a
value and its fields, both in key order, and its timestamp in units of the precision. -/
theorem readLine_line (x : Point) (p : Precision) (hwritable : writableFields x.fields ≠ [])
    (hlegible : x.Legible) :
    ∃ line, x.line p = .ok line ∧
      readLine line.toList = some
        { measurement := x.measurement
          tags := writtenTags x.tags
          fields := (writableFields x.fields).map fun e => (e.1, WireValue.ofField e.2)
          time := x.timestamp.map fun t => t.toPrecision p } := by
  obtain ⟨line, hline, htext⟩ := x.line_eq p hwritable
  refine ⟨line, hline, ?_⟩
  have htime : (timeText x.timestamp p).toList = [] ∨
      ∃ more, (timeText x.timestamp p).toList = ' ' :: more := by
    cases x.timestamp with
    | none => exact Or.inl rfl
    | some t => exact Or.inr ⟨_, String.toList_append⟩
  have hread_fields := readFields_fieldTexts hwritable hlegible.fields
    (fun e he => (List.mem_filter.1 he).2) htime
  have hread_tags := fun more => readTags_tagTexts (Or.inr ⟨more, rfl⟩)
    (fun t ht => hlegible.tagTokens t ((List.dropLast_sublist _).mem ht))
    (Or.inr fun t ht => hlegible.tagTokens t (List.mem_of_getLast? ht))
  have hread_key : ∀ more, readKey (escapeChars isKeySpecial x.measurement.toList ++
        ((writtenTags x.tags).flatMap tagText ++ ' ' :: more)) =
      (x.measurement.toList, (writtenTags x.tags).flatMap tagText ++ ' ' :: more) :=
    fun more => readKey_escapeChars (head?_tagTexts (Or.inr ⟨more, rfl⟩)) _
      (Or.inr hlegible.measurement)
  simp only [readLine, htext, hread_key, hread_tags, hread_fields, readTime_timeText,
    Option.bind_some, Option.map_some, String.ofList_toList]

/-- A point with every kind of field, a tag without a value and characters that need escapes. -/
def sample : Point where
  measurement := "m, =\""
  tags := KeyMap.ofList [("k\\1", "v 1"), ("none", "")]
  fields := KeyMap.ofList
    [("b", .bool true), ("i", .integer (-3)), ("u", .unsigned 7), ("s", .string "\\\" ,\n\\"),
      ("x", .float (Float.ofBits 0x3FF8000000000000)),
      ("nan", .float (Float.ofBits 0x7FF8000000000000))]
  timestamp := some ⟨-1500, .milliseconds⟩
  measurement_ne := by decide
  fields_ne := by decide
  tagKeys_ne := by decide
  fieldKeys_ne := by decide

theorem readLine_line_sample :
    writableFields sample.fields ≠ [] ∧ sample.Legible ∧
      ∃ line, sample.line .seconds = .ok line ∧
        readLine line.toList = some
          { measurement := "m, =\""
            tags := [("k\\1", "v 1")]
            fields :=
              [("b", .bool true), ("i", .integer (-3)), ("s", .string "\\\" ,\n\\"),
                ("u", .unsigned 7), ("x", .float "1.5")]
            time := some (-1) } := by
  have hlegible : sample.Legible := ⟨by decide, by decide, by decide⟩
  refine ⟨by decide, hlegible, ?_⟩
  obtain ⟨line, hline, hread⟩ := readLine_line sample .seconds (by decide) hlegible
  refine ⟨line, hline, hread.trans ?_⟩
  decide

end Point

end TimeSeries
