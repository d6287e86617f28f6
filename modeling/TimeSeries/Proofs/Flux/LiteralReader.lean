import TimeSeries.Proofs.Flux.Writing
import TimeSeries.Proofs.Point.Conversion
import TimeSeries.Proofs.Point.LineReader
import TimeSeries.Proofs.Text.ByteOrder
import TimeSeries.Text.Search

/-!
# Literals are read back

A literal is a scalar, scalars with commas between them in brackets, or entries with keys in quotes
in braces. A scalar is a text in quotes, a truth value, an integer, a length of time in nanoseconds
or the call that makes an unsigned integer. The first character tells which of them it is, and each
of them ends by itself in front of a comma, a closing bracket and the end of the text (`Stops`).

What is left out of a collection has no separator either, so the text says exactly what is left, and
nothing is left out silently but `null`.
-/

namespace TimeSeries

open Text Wire

/-- The value is `null` or of one of the kinds that are read back, and a length of time has a number
of nanoseconds that fits 64 bits. -/
def Value.isPlain : Value → Bool
  | .duration n => Timestamp.fitsInt64 n
  | .double _ => false
  | .binary _ => false
  | .time _ => false
  | _ => true

namespace Flux

/-- What the text of a literal says. -/
inductive Reading where
  | scalar (v : Value)
  | list (l : List Value)
  | record (entries : List (String × Value))
deriving DecidableEq

/-- A text in quotes, and what follows it. -/
def readText : List Char → Option (String × List Char)
  | '"' :: l => (readQuoted l).map fun r => (String.ofList r.1, r.2)
  | _ => none

def readTruth (l : List Char) : Option (Value × List Char) :=
  ((after? "true".toList l).map (Value.bool true, ·)).or
    ((after? "false".toList l).map (Value.bool false, ·))

/-- The call that makes an unsigned integer, and what follows it. -/
def readUnsignedCall (l : List Char) : Option (Value × List Char) :=
  (after? "uint(v: ".toList l).bind fun l =>
    (after? [')'] (l.dropWhile Number.isDigit)).bind fun rest =>
      (Number.readUInt64 (String.ofList (l.takeWhile Number.isDigit))).toOption.map
        (Value.unsigned ·, rest)

/-- An integer, or a length of time when its unit follows. -/
def readInteger (l : List Char) : Option (Value × List Char) :=
  (Number.readInt64 (String.ofList (l.takeWhile isNumberChar))).toOption.map fun i =>
    match after? "ns".toList (l.dropWhile isNumberChar) with
    | some rest => (.duration i.toInt, rest)
    | none => (.long i, l.dropWhile isNumberChar)

def readScalar (l : List Char) : Option (Value × List Char) :=
  (((readText l).map fun r => (Value.string r.1, r.2)).or (readTruth l)).or
    ((readUnsignedCall l).or (readInteger l))

/-- A key in quotes and its value, and what follows them. -/
def readEntry (l : List Char) : Option ((String × Value) × List Char) :=
  (readText l).bind fun key =>
    (after? ": ".toList key.2).bind fun l => (readScalar l).map fun r => ((key.1, r.1), r.2)

/-- Parts with commas between them up to a closing bracket, and what follows it. -/
def readParts {α : Type} (read : List Char → Option (α × List Char)) (close : Char)
    (l : List Char) : Option (List α × List Char) :=
  (read l).bind fun r =>
    match after? [close] r.2 with
    | some rest => some ([r.1], rest)
    | none =>
      (after? ", ".toList r.2).bind fun more =>
        if _h : more.length < l.length then
          (readParts read close more).map fun rs => (r.1 :: rs.1, rs.2)
        else none
termination_by l.length

namespace Reading

/-- The literal at the head of a text, and what follows it. -/
def read : List Char → Option (Reading × List Char)
  | '[' :: l => (readParts readScalar ']' l).map fun r => (.list r.1, r.2)
  | '\x7b' :: l => (readParts readEntry '\x7d' l).map fun r => (.record r.1, r.2)
  | l => (readScalar l).map fun r => (.scalar r.1, r.2)

end Reading

/-- What ends a literal, or the end of the text. -/
def Stops (rest : List Char) : Prop :=
  ∀ c ∈ rest.head?, c = ',' ∨ c = ']' ∨ c = '\x7d' ∨ c = ')'

namespace Literal

def leaves : Literal → List Value
  | .value v => [v]
  | .list l => l
  | .record r => r.toList.map Prod.snd

/-- What is left of a literal without its `null`s. -/
def reading : Literal → Reading
  | .value v => .scalar v
  | .list l => .list (l.filter fun v => !v.isNull)
  | .record r => .record (r.toList.filter fun e => !e.2.isNull)

end Literal

theorem after?_append (start rest : List Char) : after? start (start ++ rest) = some rest :=
  after?_eq_some_iff.2 rfl

theorem after?_cons_of_ne {a b : Char} (h : a ≠ b) (start l : List Char) :
    after? (a :: start) (b :: l) = none := by
  rw [after?, if_neg h]

theorem readText_quote (s : String) (rest : List Char) :
    readText ((quote s).toList ++ rest) = some (s, rest) := by
  have htext : (quote s).toList ++ rest =
      '"' :: (escapeChars isQuoteSpecial s.toList ++ '"' :: rest) := by
    simp [toList_quote]
  rw [htext, readText, readQuoted_escapeChars, Option.map_some, String.ofList_toList]

theorem isNumberChar_of_stops {rest : List Char} (h : Stops rest) :
    ∀ c ∈ rest.head?, isNumberChar c = false := by
  intro c hc
  rcases h c hc with rfl | rfl | rfl | rfl <;> decide

/-- What begins like a number is read as one. -/
theorem readScalar_of_isNumberChar {c : Char} (hc : isNumberChar c = true) (l : List Char) :
    readScalar (c :: l) = readInteger (c :: l) := by
  have hother {d : Char} (hd : isNumberChar d = false) : d ≠ c := by
    rintro rfl
    rw [hc] at hd
    cases hd
  have htext : readText (c :: l) = none := by
    rw [readText.eq_def]
    split
    · next heq => exact absurd (List.head_eq_of_cons_eq heq).symm (hother rfl)
    · rfl
  have htrue : after? "true".toList (c :: l) = none :=
    after?_cons_of_ne (hother (d := 't') rfl) "rue".toList l
  have hfalse : after? "false".toList (c :: l) = none :=
    after?_cons_of_ne (hother (d := 'f') rfl) "alse".toList l
  have hcall : after? "uint(v: ".toList (c :: l) = none :=
    after?_cons_of_ne (hother (d := 'u') rfl) "int(v: ".toList l
  rw [readScalar, htext, readTruth, htrue, hfalse, readUnsignedCall, hcall]
  rfl

theorem readInteger_toString (i : Int64) {rest : List Char}
    (hrest : ∀ c ∈ rest.head?, isNumberChar c = false) :
    readInteger ((toString i.toInt).toList ++ rest) =
      some (match after? "ns".toList rest with
        | some more => (.duration i.toInt, more)
        | none => (.long i, rest)) := by
  have hnumber : ∀ c ∈ (toString i.toInt).toList, isNumberChar c = true :=
    fun c hc => isNumberChar_of_mem_toString hc
  rw [readInteger, takeWhile_append_stop hnumber hrest, dropWhile_append_stop hnumber hrest,
    String.ofList_toList, Number.readInt64_toString]
  rfl

theorem readScalar_toString (i : Int64) {rest : List Char}
    (hrest : ∀ c ∈ rest.head?, isNumberChar c = false) :
    readScalar ((toString i.toInt).toList ++ rest) =
      some (match after? "ns".toList rest with
        | some more => (.duration i.toInt, more)
        | none => (.long i, rest)) := by
  obtain ⟨c, l, hcons⟩ := List.exists_cons_of_ne_nil (Number.toList_toString_ne_nil i.toInt)
  have hc : isNumberChar c = true :=
    isNumberChar_of_mem_toString (i := i.toInt) (hcons ▸ List.mem_cons_self)
  rw [← readInteger_toString i hrest, hcons, List.cons_append, readScalar_of_isNumberChar hc]

theorem readScalar_unsigned (u : UInt64) (rest : List Char) :
    readScalar (("uint(v: " ++ toString u.toNat ++ ")").toList ++ rest) =
      some (.unsigned u, rest) := by
  have htext : ("uint(v: " ++ toString u.toNat ++ ")").toList ++ rest =
      "uint(v: ".toList ++ ((toString u.toNat).toList ++ ')' :: rest) := by
    simp
  have hdigits : ∀ c ∈ (toString u.toNat).toList, Number.isDigit c = true := by
    intro c hc
    rw [Number.toList_toString_nat] at hc
    exact Number.isDigit_of_mem_toDigits hc
  have hrest : ∀ c ∈ (')' :: rest).head?, Number.isDigit c = false := by simp [Number.isDigit]
  have hcall : readUnsignedCall ("uint(v: ".toList ++ ((toString u.toNat).toList ++ ')' :: rest)) =
      some (.unsigned u, rest) := by
    rw [readUnsignedCall, after?_append, Option.bind_some, takeWhile_append_stop hdigits hrest,
      dropWhile_append_stop hdigits hrest, String.ofList_toList, Number.readUInt64_toString]
    rfl
  rw [htext, readScalar, hcall]
  rfl

/-- A value is read back in front of what ends a literal. -/
theorem readScalar_literal {v : Value} (hv : v.isPlain = true) {t : String}
    (ht : v.literal? = some t) {rest : List Char} (hrest : Stops rest) :
    readScalar (t.toList ++ rest) = some (v, rest) := by
  cases v with
  | double x => cases hv
  | binary b => cases hv
  | time m => cases hv
  | null => cases ht
  | string s =>
      obtain rfl := Option.some.inj ht
      rw [readScalar, readText_quote]
      rfl
  | bool b =>
      obtain rfl := Option.some.inj ht
      cases b <;> rfl
  | long i =>
      obtain rfl := Option.some.inj ht
      have hunit : after? "ns".toList rest = none := by
        cases rest with
        | nil => rfl
        | cons c rest =>
            refine after?_cons_of_ne ?_ ['s'] rest
            rintro rfl
            exact absurd (hrest 'n' rfl) (by decide)
      rw [readScalar_toString i (isNumberChar_of_stops hrest), hunit]
  | unsigned u =>
      obtain rfl := Option.some.inj ht
      exact readScalar_unsigned u rest
  | duration n =>
      obtain rfl := Option.some.inj ht
      have hunit : ∀ c ∈ ("ns".toList ++ rest).head?, isNumberChar c = false := by
        intro c hc
        obtain rfl : 'n' = c := Option.some.inj hc
        decide
      have hfits : Timestamp.fitsInt64 n = true := hv
      rw [Value.nanosOr, if_pos hfits, String.toList_append, List.append_assoc,
        ← Timestamp.toInt_ofInt_of_fits hfits, readScalar_toString _ hunit, after?_append]

section Parts

variable {α : Type} {read : List Char → Option (α × List Char)} {text : α → String}
  {close : Char} {rest : List Char}

theorem readParts_last {a : α} {l : List Char} (h : read l = some (a, close :: rest)) :
    readParts read close l = some ([a], rest) := by
  rw [readParts, h]
  simp [after?]

theorem readParts_cons {a : α} {l more : List Char} (hclose : close ≠ ',')
    (h : read l = some (a, ", ".toList ++ more)) (hshort : more.length < l.length) :
    readParts read close l = (readParts read close more).map fun r => (a :: r.1, r.2) := by
  have hnone : after? [close] (", ".toList ++ more) = none :=
    after?_cons_of_ne hclose [] _
  rw [readParts, h, Option.bind_some]
  dsimp only
  rw [hnone]
  dsimp only
  rw [after?_append, Option.bind_some, dif_pos hshort]

/-- Parts are read back up to the closing bracket, if each of them is in front of what can follow
it. -/
theorem readParts_intercalate (hclose : close = ']' ∨ close = '\x7d') {parts : List α}
    (hne : parts ≠ [])
    (hread : ∀ a ∈ parts, ∀ rest, Stops rest → read ((text a).toList ++ rest) = some (a, rest)) :
    readParts read close ((", ".intercalate (parts.map text)).toList ++ close :: rest) =
      some (parts, rest) := by
  induction parts with
  | nil => exact absurd rfl hne
  | cons a parts ih =>
      have ha := hread a List.mem_cons_self
      by_cases hnil : parts = []
      · subst hnil
        rw [List.map_singleton, String.intercalate_singleton]
        refine readParts_last (ha _ ?_)
        rcases hclose with rfl | rfl <;> simp [Stops]
      · have htexts : parts.map text ≠ [] := by simpa using hnil
        have htext : (", ".intercalate ((a :: parts).map text)).toList ++ close :: rest =
            (text a).toList ++ (", ".toList ++
              ((", ".intercalate (parts.map text)).toList ++ close :: rest)) := by
          rw [List.map_cons, String.intercalate_cons_of_ne_nil htexts]
          simp
        have hcomma : close ≠ ',' := by rcases hclose with rfl | rfl <;> decide
        have hmore := ih hnil fun d hd => hread d (List.mem_cons_of_mem a hd)
        rw [htext, readParts_cons hcomma (ha _ (by simp [Stops])) (by simp; omega), hmore]
        rfl

end Parts

theorem readEntry_entryText {e : String × Value} (he : e.2.isPlain = true) {t : String}
    (ht : Literal.entryText? e = some t) {rest : List Char} (hrest : Stops rest) :
    readEntry (t.toList ++ rest) = some (e, rest) := by
  obtain ⟨u, hu, rfl⟩ := Option.map_eq_some_iff.1 ht
  have htext : (quote e.1 ++ ": " ++ u).toList ++ rest =
      (quote e.1).toList ++ (": ".toList ++ (u.toList ++ rest)) := by
    simp
  rw [htext, readEntry, readText_quote, Option.bind_some, after?_append, Option.bind_some,
    readScalar_literal he hu hrest]
  rfl

/-- The head of a scalar is no opening bracket. -/
theorem read_of_readScalar {l : List Char} {r : Value × List Char} (h : readScalar l = some r) :
    Reading.read l = some (.scalar r.1, r.2) := by
  have hlist (m : List Char) : readScalar ('[' :: m) = none := rfl
  have hrecord (m : List Char) : readScalar ('\x7b' :: m) = none := rfl
  rw [Reading.read.eq_def]
  split
  · rw [hlist] at h
    cases h
  · rw [hrecord] at h
    cases h
  · rw [h]
    rfl

namespace Literal

/-- What is written between brackets is read back, if every part is. -/
theorem exists_bracketed {α : Type} {text? : α → Option String} {keep : α → Bool}
    (hkeep : ∀ a, (text? a).isSome = keep a) {parts : List α} (hne : parts.any keep = true)
    {read : List Char → Option (α × List Char)}
    (hread : ∀ a ∈ parts, ∀ t, text? a = some t →
      ∀ rest, Stops rest → read (t.toList ++ rest) = some (a, rest))
    (left right : String) {close : Char} (hclose : close = ']' ∨ close = '\x7d')
    (hright : right.toList = [close]) :
    ∃ t, bracketed left right (parts.filterMap text?) = some (left ++ t) ∧
      ∀ rest, readParts read close (t.toList ++ rest) = some (parts.filter keep, rest) := by
  have hkept : parts.filter keep ≠ [] := by
    obtain ⟨a, ha, hka⟩ := List.any_eq_true.1 hne
    have hmem : a ∈ parts.filter keep := List.mem_filter.2 ⟨ha, hka⟩
    exact List.ne_nil_of_mem hmem
  have htexts : (parts.filter keep).map (fun a => (text? a).getD "") ≠ [] := by simpa using hkept
  refine ⟨", ".intercalate ((parts.filter keep).map fun a => (text? a).getD "") ++ right, ?_,
    fun rest => ?_⟩
  · rw [filterMap_eq_map_filter hkeep]
    obtain ⟨t, more, hcons⟩ := List.exists_cons_of_ne_nil htexts
    rw [hcons, bracketed, String.append_assoc]
    exact List.cons_ne_nil t more
  · rw [String.toList_append, hright, List.append_assoc]
    refine readParts_intercalate hclose hkept fun a ha rest hrest => ?_
    obtain ⟨ha, hka⟩ := List.mem_filter.1 ha
    obtain ⟨t, ht⟩ := Option.isSome_iff_exists.1 ((hkeep a).trans hka)
    rw [ht, Option.getD_some, hread a ha t ht rest hrest]

theorem exists_text {l : Literal} (hplain : ∀ v ∈ l.leaves, v.isPlain = true)
    (hl : l.isVacant = false) :
    ∃ t, l.text? = some t ∧
      ∀ rest, Stops rest → Reading.read (t.toList ++ rest) = some (l.reading, rest) := by
  cases l with
  | value v =>
      have hsome : v.literal?.isSome = true := by
        rw [v.isSome_literal?, ← isVacant, hl]
        rfl
      obtain ⟨t, ht⟩ := Option.isSome_iff_exists.1 hsome
      refine ⟨t, ht, fun rest hrest => ?_⟩
      exact read_of_readScalar (readScalar_literal (hplain v List.mem_cons_self) ht hrest)
  | list l =>
      have hne : (l.any fun v => !v.isNull) = true := by
        rw [List.any_eq_not_all_not]
        simpa [isVacant] using hl
      obtain ⟨t, ht, hread⟩ := exists_bracketed Value.isSome_literal? hne
        (fun v hv t ht rest hrest => readScalar_literal (hplain v hv) ht hrest) "[" "]"
        (Or.inl rfl) rfl
      refine ⟨"[" ++ t, ht, fun rest _ => ?_⟩
      have htext : ("[" ++ t).toList ++ rest = '[' :: (t.toList ++ rest) := by simp
      rw [htext, Reading.read, hread]
      rfl
  | record r =>
      have hne : (r.toList.any fun e => !e.2.isNull) = true := by
        rw [List.any_eq_not_all_not]
        simpa [isVacant] using hl
      have hentry : ∀ e ∈ r.toList, ∀ t, entryText? e = some t →
          ∀ rest, Stops rest → readEntry (t.toList ++ rest) = some (e, rest) :=
        fun e he t ht rest hrest =>
          readEntry_entryText (hplain e.2 (List.mem_map_of_mem he)) ht hrest
      obtain ⟨t, ht, hread⟩ := exists_bracketed isSome_entryText? hne hentry "\x7b" "\x7d"
        (Or.inr rfl) rfl
      refine ⟨"\x7b" ++ t, ht, fun rest _ => ?_⟩
      have htext : ("\x7b" ++ t).toList ++ rest = '\x7b' :: (t.toList ++ rest) := by simp
      rw [htext, Reading.read, hread]
      rfl

/-- A literal is written exactly when it has anything but `null`, and then its text is read back in
front of a comma, a closing bracket and the end, to its last character, as what is left of the
literal without its `null`s: the elements of a list in their order, and the entries of a record in
the order of the bytes of their keys. -/
theorem write_is_read_back (l : Literal) (hplain : ∀ v ∈ l.leaves, v.isPlain = true)
    (b : LineBuffer) :
    (l.write b = (b, false) ↔ l.isVacant = true) ∧
      (l.isVacant = false → ∃ t, l.write b = (b.append t, true) ∧
        ∀ rest, Stops rest → Reading.read (t.toList ++ rest) = some (l.reading, rest)) ∧
      ∀ entries, l.reading = .record entries → Ascending (entries.map Prod.fst) := by
  refine ⟨?_, fun hl => ?_, fun entries hentries => ?_⟩
  · rw [write_eq, Prod.mk.injEq, isSome_text?, Bool.not_eq_eq_eq_not, Bool.not_false]
    refine ⟨And.right, fun hl => ⟨?_, hl⟩⟩
    have hnone : l.text? = none := by
      rw [← Option.not_isSome_iff_eq_none, isSome_text?, hl]
      exact Bool.false_ne_true
    rw [hnone]
    exact LineBuffer.append_empty b
  · obtain ⟨t, ht, hread⟩ := exists_text hplain hl
    refine ⟨t, ?_, hread⟩
    rw [write_eq, ht]
    rfl
  · cases l with
    | record r =>
        obtain rfl := Reading.record.inj hentries
        exact r.ascending_filter _
    | value v => cases hentries
    | list l => cases hentries

/-- A record with delimiters in its keys and texts, and a `null` between the others. -/
def delimiterRecord : Literal :=
  .record (KeyMap.ofList [("é", .duration (-5)), ("b\"], \x7d", .string "\\\", \n"),
    ("z", .unsigned 7), ("c", .null), ("B", .long (-1)), ("d", .bool false)])

theorem write_is_read_back_of_delimiters :
    (∀ v ∈ delimiterRecord.leaves, v.isPlain = true) ∧ delimiterRecord.isVacant = false ∧
      Stops ", [1]".toList ∧
      ∃ t, delimiterRecord.write ⟨"p: "⟩ = ((LineBuffer.mk "p: ").append t, true) ∧
        Reading.read (t.toList ++ ", [1]".toList) =
          some (.record [("B", .long (-1)), ("b\"], \x7d", .string "\\\", \n"), ("d", .bool false),
            ("z", .unsigned 7), ("é", .duration (-5))], ", [1]".toList) := by
  have hplain : ∀ v ∈ delimiterRecord.leaves, v.isPlain = true := by decide
  have hkept : delimiterRecord.isVacant = false := by decide
  have hstops : Stops ", [1]".toList := by simp [Stops]
  obtain ⟨-, hwrite, -⟩ := write_is_read_back delimiterRecord hplain ⟨"p: "⟩
  obtain ⟨t, ht, hread⟩ := hwrite hkept
  exact ⟨hplain, hkept, hstops, t, ht, hread _ hstops⟩

example : delimiterRecord.text? = some ("\x7b\"B\": -1, \"b\\\"], \x7d\": \"\\\\\\\", \n\", " ++
    "\"d\": false, \"z\": uint(v: 7), \"é\": -5ns\x7d") := by
  decide

end Literal

end Flux

end TimeSeries
