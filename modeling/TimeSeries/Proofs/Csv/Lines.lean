import TimeSeries.Proofs.Csv.Print
import TimeSeries.Proofs.Text.Trim

/-!
# Rows of an input by its lines

An input is looked at here as its lines, whatever their ends are: line feeds, carriage returns with
line feeds, or no end behind the last one. A line is what the reader takes for one row, so a line
feed between quotes belongs to the text of a line.

`rowsOf` says which rows the lines are and which line number is reached behind each. Lines without a
text are no rows. A row is numbered behind the byte that ends it: for a line feed that is one line
further than for a carriage return, whose line feed is read with the next row, and for an end of the
input. `Input.Holds.rows_upTo` says so for an input and for its parts, and
`Input.Holds.rows_eq_append_cons` which row comes behind a part. The reader itself is opened in
`rowsFrom_line` only.
-/

namespace TimeSeries.Csv

/-- The text of a cell from its bytes. -/
def cellText (cell : List UInt8) : String :=
  match Text.utf8Text? cell with
  | .ok s => Text.trim s
  | .error _ => ""

theorem cellText_utf8Bytes (s : String) : cellText (Text.utf8Bytes s) = Text.trim s := by
  rw [cellText, Text.utf8Text?_utf8Bytes]

theorem cellText_of_trimEnds {cell : List UInt8} {s : String}
    (h : Text.trimEnds Text.isAsciiBlank cell = Text.utf8Bytes s) :
    cellText cell = Text.trim s := by
  obtain ⟨t, rfl, ht⟩ := Text.exists_utf8Bytes_of_trimEnds h
  rw [cellText_utf8Bytes, ht]

theorem eq_map_utf8Bytes_of_cellTexts {n : Nat} {cells : List (List UInt8)} {texts : List String}
    (h : cellTexts n cells = .ok texts) : cells = texts.map Text.utf8Bytes := by
  induction cells generalizing n texts with
  | nil =>
      obtain rfl := Except.ok.inj h
      rfl
  | cons cell cells ih =>
      rw [cellTexts] at h
      split at h
      · cases h
      · next s hs =>
          cases hrest : cellTexts (n + 1) cells with
          | error e =>
              rw [hrest] at h
              cases h
          | ok more =>
              rw [hrest] at h
              obtain rfl := Except.ok.inj h
              rw [List.map_cons, ← ih hrest, Text.eq_utf8Bytes_of_utf8Text? hs]

theorem map_trim_eq_map_cellText {cells : List (List UInt8)} {texts : List String}
    (h : cells.map (Text.trimEnds Text.isAsciiBlank) = texts.map Text.utf8Bytes) :
    texts.map Text.trim = cells.map cellText := by
  induction cells generalizing texts with
  | nil =>
      obtain rfl : texts = [] := by simpa using h.symm
      rfl
  | cons cell cells ih =>
      cases texts with
      | nil => cases h
      | cons s texts =>
          obtain ⟨hcell, hcells⟩ := List.cons.inj h
          rw [List.map_cons, List.map_cons, cellText_of_trimEnds hcell, ih hcells]

/-- A row that can be read has the texts of its cells, whether white space was removed from the
bytes before or not. -/
theorem eq_of_rowOfCells {p : Position} {line : Nat} {cells : List (List UInt8)} {row : Row}
    (h : rowOfCells p line cells = .ok row) : row = ⟨cells.map cellText, line⟩ := by
  simp only [rowOfCells] at h
  split at h
  · next texts htexts =>
      obtain rfl := Except.ok.inj h
      have hbytes := eq_map_utf8Bytes_of_cellTexts htexts
      split at hbytes
      · rw [hbytes, List.map_map]
        congr 1
        exact List.map_congr_left fun s _ => (cellText_utf8Bytes s).symm
      · congr 1
        exact map_trim_eq_map_cellText hbytes
  · cases h

/-- A line of an input: its text, and how it ends if it does. -/
structure Line where
  text : List UInt8
  ending : Option LineEnd
deriving DecidableEq, Repr

namespace Line

/-- The byte that ends the row, if there is one. -/
def stop (l : Line) : List UInt8 := (l.ending.map LineEnd.first).toList

/-- What is left of the line when its row has been read. -/
def left (l : Line) : List UInt8 := (l.ending.map LineEnd.left).getD []

def bytes (l : Line) : List UInt8 := l.text ++ (l.stop ++ l.left)

/-- The line feeds at the end of the line that are read together with its row. -/
def own (l : Line) : Nat := l.stop.count lineFeed

def raw (l : Line) : RawRow := readRow .fresh (l.text ++ l.stop)

def cells (l : Line) : List String := l.raw.cells.map cellText

theorem trim_of_mem_cells {l : Line} {cell : String} (h : cell ∈ l.cells) :
    Text.trim cell = cell := by
  obtain ⟨bytes, -, rfl⟩ := List.mem_map.1 h
  rw [cellText]
  split
  · exact Text.trim_trim _
  · rfl

/-- The reader takes the line for one row, which ends where the line does. -/
structure Whole (l : Line) : Prop where
  rest : l.raw.rest = []
  ended : l.raw.ended = l.ending.isSome

instance (l : Line) : Decidable l.Whole :=
  decidable_of_iff (l.raw.rest = [] ∧ l.raw.ended = l.ending.isSome)
    ⟨fun h => ⟨h.1, h.2⟩, fun h => ⟨h.1, h.2⟩⟩

theorem isTerminator_of_mem_end {l : Line} {b : UInt8} (h : b ∈ l.stop ++ l.left) :
    isTerminator b = true := by
  cases hending : l.ending with
  | none => simp [stop, left, hending] at h
  | some e =>
      refine LineEnd.isTerminator_of_mem (e := e) ?_
      simpa [stop, left, hending, LineEnd.bytes] using h

theorem isTerminator_of_mem_left {l : Line} {b : UInt8} (h : b ∈ l.left) : isTerminator b = true :=
  isTerminator_of_mem_end (List.mem_append_right _ h)

end Line

theorem readRow_append {place : Place} {bytes : List UInt8}
    (h : (readRow place bytes).ended = true) (after : List UInt8) :
    readRow place (bytes ++ after) =
      { readRow place bytes with rest := (readRow place bytes).rest ++ after } := by
  fun_induction readRow place bytes <;> simp_all [readRow, RawRow.behind, RawRow.behindComma]

namespace Line

/-- In front of anything that may follow it, the line is read as it is alone. -/
theorem Whole.readRow_bytes {l : Line} (h : l.Whole) {after : List UInt8}
    (hlast : l.ending = none → after = []) :
    readRow .fresh (l.bytes ++ after) =
      ⟨l.raw.cells, l.text ++ l.stop, l.left ++ after, l.raw.ended⟩ := by
  have hread : l.raw.read = l.text ++ l.stop := by
    have hall := readRow_read_append_rest .fresh (l.text ++ l.stop)
    rw [← raw, h.rest, List.append_nil] at hall
    exact hall
  have hraw : readRow .fresh (l.text ++ l.stop) =
      ⟨l.raw.cells, l.text ++ l.stop, [], l.raw.ended⟩ := by
    calc readRow .fresh (l.text ++ l.stop)
        = ⟨l.raw.cells, l.raw.read, l.raw.rest, l.raw.ended⟩ := rfl
      _ = ⟨l.raw.cells, l.text ++ l.stop, [], l.raw.ended⟩ := by rw [hread, h.rest]
  have hbytes : l.bytes ++ after = l.text ++ l.stop ++ (l.left ++ after) := by
    rw [bytes, List.append_assoc, List.append_assoc, List.append_assoc]
  rw [hbytes]
  cases hending : l.ending with
  | none =>
      have hnone : l.left ++ after = [] := by
        rw [hlast hending, left, hending]
        rfl
      rw [hnone, List.append_nil, hraw]
  | some e =>
      have hended : (readRow .fresh (l.text ++ l.stop)).ended = true := by
        rw [← raw, h.ended, hending]
        rfl
      rw [readRow_append hended, hraw]
      rfl

theorem Whole.text_eq_cons {l : Line} (h : l.Whole) (hne : l.text ≠ []) :
    ∃ b rest, l.text = b :: rest ∧ isTerminator b = false := by
  obtain ⟨b, rest, htext⟩ := List.exists_cons_of_ne_nil hne
  refine ⟨b, rest, htext, ?_⟩
  by_contra hb
  have hraw : l.raw = ⟨[[]], [b], rest ++ l.stop, true⟩ := by
    rw [raw, htext, List.cons_append, readRow_terminator (by simpa using hb) _ (by decide)]
  obtain ⟨hrest, hended⟩ := h
  rw [hraw] at hrest hended
  have hstop : l.stop = [] := (List.append_eq_nil_iff.1 hrest).2
  rw [stop, Option.toList_eq_nil_iff, Option.map_eq_none_iff] at hstop
  rw [hstop] at hended
  cases hended

/-- The end of a line ends a cell. -/
theorem readRow_stop (l : Line) {place : Place} (hplace : place ≠ .quoted) :
    readRow place l.stop = ⟨[[]], l.stop, [], l.ending.isSome⟩ := by
  cases hending : l.ending with
  | none =>
      rw [stop, hending]
      cases place <;> rfl
  | some e =>
      rw [stop, hending]
      exact readRow_terminator e.isTerminator_first [] hplace

/-- White space in front of the end of the line and nothing else. -/
def Blank (l : Line) : Prop :=
  ∃ s : String, l.text = Text.utf8Bytes s ∧
    ∀ c ∈ s.toList, Text.isBlank c = true ∧ c ≠ '\n' ∧ c ≠ '\r'

theorem isSpecial_of_blank {c : Char} (hc : Text.isBlank c = true ∧ c ≠ '\n' ∧ c ≠ '\r') {b : UInt8}
    (hb : b ∈ String.utf8EncodeChar c) : isSpecial b = false := by
  have hchar : ∀ d : Char, d.toNat < 128 → b = UInt8.ofNat d.toNat → c = d := by
    rintro d hd rfl
    have hnat := UInt8.toNat_ofNat_of_lt' (Nat.lt_trans hd (by decide : 128 < 256))
    refine Char.toNat_inj.1 ?_
    rw [← Text.eq_of_mem_utf8EncodeChar hb (by rw [hnat]; exact hd), hnat]
  by_contra hspecial
  simp only [isSpecial, isTerminator, Bool.not_eq_false, Bool.or_eq_true, beq_iff_eq] at hspecial
  rcases hspecial with (h | h) | h | h
  · exact absurd (hchar ',' (by decide) h ▸ hc.1) (by decide)
  · exact absurd (hchar '"' (by decide) h ▸ hc.1) (by decide)
  · exact hc.2.1 (hchar '\n' (by decide) h)
  · exact hc.2.2 (hchar '\r' (by decide) h)

/-- A blank line is read as one cell without a text. -/
theorem Blank.cells_eq {l : Line} (h : l.Blank) : l.cells = [""] := by
  obtain ⟨s, htext, hblank⟩ := h
  have hplain : l.text.any isSpecial = false := by
    rw [List.any_eq_false, htext, Text.utf8Bytes_eq_flatMap]
    intro b hb
    obtain ⟨c, hc, hmem⟩ := List.mem_flatMap.1 hb
    simp [isSpecial_of_blank (hblank c hc) hmem]
  have hprint : printCell l.text = l.text := by rw [printCell, hplain]; rfl
  have hraw : l.raw.cells = [l.text] := by
    have hread := readRow_printCell l.text fun _ => readRow_stop l
    rw [hprint] at hread
    rw [raw, hread]
  rw [cells, hraw, htext, List.map_singleton, cellText_utf8Bytes,
    Text.trim_eq_empty fun c hc => (hblank c hc).1]

theorem cells_of_text_eq_nil {l : Line} (h : l.text = []) : l.cells = [""] :=
  Blank.cells_eq ⟨"", h, by simp⟩

theorem own_add_count_left {l : Line} (h : l.ending ≠ none) :
    l.own + l.left.count lineFeed = 1 := by
  obtain ⟨e, hending⟩ := Option.ne_none_iff_exists'.1 h
  rw [own, left, stop, hending]
  exact (congrArg (· + _) e.count_first).trans e.own_add_count_left

end Line

/-- A line with a text is the next row, and the reader stands behind the byte that ends it. -/
theorem rowsFrom_line {l : Line} (h : l.Whole) (hne : l.text ≠ []) {gap : List UInt8}
    (hgap : ∀ b ∈ gap, isTerminator b = true) {after : List UInt8}
    (hlast : l.ending = none → after = []) {p q : Position} {lead : List UInt8}
    (hq : q = p.advance (lead ++ gap ++ (l.text ++ l.stop))) :
    rowsFrom .complete p lead (gap ++ (l.bytes ++ after)) =
      rowOfCells p q.line l.raw.cells :: rowsFrom .complete q [] (l.left ++ after) := by
  obtain ⟨b, rest, htext, hb⟩ := h.text_eq_cons hne
  have hread := h.readRow_bytes hlast
  have hcons : l.bytes ++ after = b :: (rest ++ (l.stop ++ l.left) ++ after) := by
    rw [Line.bytes, htext]
    rfl
  subst hq
  rw [hcons] at hread ⊢
  exact rowsFrom_of_readRow hgap hb hread p lead

/-- The rows of the lines behind a line, each with the line that is reached behind it. -/
def rowsOf : (line : Nat) → List Line → List Row
  | _, [] => []
  | line, l :: ls =>
    if l.text = [] then rowsOf (line + l.bytes.count lineFeed) ls
    else
      ⟨l.cells, line + (l.text ++ l.stop).count lineFeed⟩ ::
        rowsOf (line + l.bytes.count lineFeed) ls

/-- The line feeds of some lines. -/
def lineFeedsOf (ls : List Line) : Nat := (ls.flatMap Line.bytes).count lineFeed

theorem rowsOf_append (line : Nat) (ls more : List Line) :
    rowsOf line (ls ++ more) = rowsOf line ls ++ rowsOf (line + lineFeedsOf ls) more := by
  induction ls generalizing line with
  | nil => rfl
  | cons l ls ih =>
      have hfeeds : line + lineFeedsOf (l :: ls) =
          line + l.bytes.count lineFeed + lineFeedsOf ls := by
        rw [lineFeedsOf, List.flatMap_cons, List.count_append, ← Nat.add_assoc]
        rfl
      rw [List.cons_append, rowsOf, rowsOf, hfeeds, ih]
      split
      · rfl
      · rfl

theorem exists_of_mem_rowsOf {line : Nat} {ls : List Line} {row : Row} (h : row ∈ rowsOf line ls) :
    ∃ l ∈ ls, row.cells = l.cells := by
  induction ls generalizing line with
  | nil => cases h
  | cons l ls ih =>
      rw [rowsOf] at h
      split at h
      · obtain ⟨m, hm, hrow⟩ := ih h
        exact ⟨m, List.mem_cons_of_mem l hm, hrow⟩
      · rcases List.mem_cons.1 h with rfl | h
        · exact ⟨l, List.mem_cons_self, rfl⟩
        · obtain ⟨m, hm, hrow⟩ := ih h
          exact ⟨m, List.mem_cons_of_mem l hm, hrow⟩

theorem rowsOf_ne_nil_iff {line : Nat} {ls : List Line} :
    rowsOf line ls ≠ [] ↔ ∃ l ∈ ls, l.text ≠ [] := by
  induction ls generalizing line with
  | nil => simp [rowsOf]
  | cons l ls ih =>
      rw [rowsOf]
      split
      · next hempty => simpa [hempty] using ih
      · next hne => simp [hne]

theorem Line.bytes_of_text_eq_nil {l : Line} (h : l.text = []) (hended : l.ending ≠ none) :
    l.bytes.count lineFeed = 1 := by
  rw [Line.bytes, h, List.nil_append, List.count_append]
  exact Line.own_add_count_left hended

/-- Lines without a text have one line feed each. -/
theorem lineFeedsOf_eq_length {ls : List Line} (hempty : ∀ l ∈ ls, l.text = [])
    (hended : ∀ l ∈ ls, l.ending ≠ none) : lineFeedsOf ls = ls.length := by
  induction ls with
  | nil => rfl
  | cons l ls ih =>
      have hrest := ih (fun m hm => hempty m (List.mem_cons_of_mem l hm))
        (fun m hm => hended m (List.mem_cons_of_mem l hm))
      have hl := Line.bytes_of_text_eq_nil (hempty l List.mem_cons_self)
        (hended l List.mem_cons_self)
      rw [lineFeedsOf, List.flatMap_cons, List.count_append, hl, List.length_cons, ← hrest,
        lineFeedsOf, Nat.add_comm]

/-- Lines that make up an input. -/
structure Sound (ls : List Line) : Prop where
  whole : ∀ l ∈ ls, l.Whole
  /-- Only the last line may have no end. -/
  ended : ∀ l ∈ ls.dropLast, l.ending ≠ none

theorem Sound.tail {l : Line} {ls : List Line} (h : Sound (l :: ls)) :
    Sound ls ∧ (l.ending = none → ls = []) := by
  by_cases hnil : ls = []
  · subst hnil
    exact ⟨⟨nofun, nofun⟩, fun _ => rfl⟩
  · have hended := h.ended
    rw [List.dropLast_cons_of_ne_nil hnil] at hended
    refine ⟨⟨fun m hm => h.whole m (List.mem_cons_of_mem l hm),
      fun m hm => hended m (List.mem_cons_of_mem l hm)⟩, fun hnone => ?_⟩
    exact absurd hnone (hended l List.mem_cons_self)

theorem Sound.left {ls more : List Line} (h : Sound (ls ++ more)) : Sound ls := by
  refine ⟨fun l hl => h.whole l (List.mem_append_left more hl), fun l hl => h.ended l ?_⟩
  by_cases hnil : more = []
  · rwa [hnil, List.append_nil]
  · rw [List.dropLast_append_of_ne_nil hnil]
    exact List.mem_append_left _ ((List.dropLast_sublist ls).mem hl)

theorem Sound.ending_ne_none {ls more : List Line} (h : Sound (ls ++ more)) (hmore : more ≠ []) :
    ∀ l ∈ ls, l.ending ≠ none := by
  intro l hl
  refine h.ended l ?_
  rw [List.dropLast_append_of_ne_nil hmore]
  exact List.mem_append_left _ hl

/-- The reader goes through the lines of an input from the first one on. What it makes of some lines
does not depend on those behind them. -/
theorem rowsFrom_append {ls : List Line} (hwhole : ∀ l ∈ ls, l.Whole) {p : Position}
    {lead gap : List UInt8} (hgap : ∀ b ∈ gap, isTerminator b = true) {line : Nat}
    (hline : p.line + (lead ++ gap).count lineFeed = line) :
    ∃ out q lead' gap', (∀ b ∈ gap', isTerminator b = true) ∧
      ((∀ r ∈ out, ∃ row, r = .ok row) → out = (rowsOf line ls).map .ok) ∧
      ∀ more, Sound (ls ++ more) →
        rowsFrom .complete p lead (gap ++ (ls ++ more).flatMap Line.bytes) =
          out ++ rowsFrom .complete q lead' (gap' ++ more.flatMap Line.bytes) := by
  induction ls generalizing p lead gap line with
  | nil => exact ⟨[], p, lead, gap, hgap, fun _ => rfl, fun more _ => rfl⟩
  | cons l ls ih =>
      have hl := hwhole l List.mem_cons_self
      have hlater := fun m hm => hwhole m (List.mem_cons_of_mem l hm)
      by_cases hempty : l.text = []
      · -- a line without a text only makes the gap in front of the next row longer
        have hbytes : l.bytes = l.stop ++ l.left := by rw [Line.bytes, hempty, List.nil_append]
        have hgap' : ∀ b ∈ gap ++ l.bytes, isTerminator b = true := by
          intro b hb
          rcases List.mem_append.1 hb with hb | hb
          · exact hgap b hb
          · exact Line.isTerminator_of_mem_end (hbytes ▸ hb)
        have hnext : p.line + (lead ++ (gap ++ l.bytes)).count lineFeed =
            line + l.bytes.count lineFeed := by
          rw [← hline, ← List.append_assoc, List.count_append, Nat.add_assoc]
        obtain ⟨out, q, lead', gap'', hends, hok, hrun⟩ := ih hlater hgap' hnext
        refine ⟨out, q, lead', gap'', hends, ?_, fun more hsound => ?_⟩
        · rw [rowsOf, if_pos hempty]
          exact hok
        · rw [← hrun more hsound.tail.1, List.cons_append, List.flatMap_cons, List.append_assoc]
      · obtain ⟨next, hadvance⟩ : ∃ next, next = p.advance (lead ++ gap ++ (l.text ++ l.stop)) :=
          ⟨_, rfl⟩
        have hreached : next.line = line + (l.text ++ l.stop).count lineFeed := by
          rw [hadvance, Position.advance, List.count_append, ← hline, Nat.add_assoc]
        have hnext : next.line + ([] ++ l.left).count lineFeed =
            line + l.bytes.count lineFeed := by
          rw [hreached, Nat.add_assoc, List.nil_append, ← List.count_append, Line.bytes,
            List.append_assoc]
        obtain ⟨out, q, lead', gap', hends, hok, hrun⟩ :=
          ih hlater (fun b => Line.isTerminator_of_mem_left) hnext
        refine ⟨rowOfCells p next.line l.raw.cells :: out, q, lead', gap', hends, fun hall => ?_,
          fun more hsound => ?_⟩
        · obtain ⟨row, hrow⟩ := hall _ List.mem_cons_self
          have hrest := hok fun r hr => hall r (List.mem_cons_of_mem _ hr)
          rw [rowsOf, if_neg hempty, List.map_cons, ← hrest, hrow, eq_of_rowOfCells hrow, hreached,
            Line.cells]
        · obtain ⟨hrest, hlast⟩ := hsound.tail
          have hafter : l.ending = none → (ls ++ more).flatMap Line.bytes = [] := fun hnone =>
            congrArg (List.flatMap Line.bytes) (hlast hnone)
          rw [List.cons_append, List.flatMap_cons, rowsFrom_line hl hempty hgap hafter hadvance,
            hrun more hrest, List.cons_append]

namespace Input

/-- The byte order mark, if it is skipped. -/
def lead (i : Input) : List UInt8 := if i.hasMark then byteOrderMark else []

/-- The input is complete and consists of these lines. -/
structure Holds (i : Input) (ls : List Line) : Prop extends Sound ls where
  bytes : i.bytes = i.lead ++ ls.flatMap Line.bytes
  complete : i.ending = .complete

/-- The input cut behind these of its lines. -/
def upTo (i : Input) (ls : List Line) : Input :=
  { i with bytes := i.lead ++ ls.flatMap Line.bytes }

variable {i : Input} {ls more : List Line}

theorem Holds.bytes_eq (h : i.Holds (ls ++ more)) :
    i.bytes = (i.upTo ls).bytes ++ more.flatMap Line.bytes := by
  rw [h.bytes, upTo, List.flatMap_append, List.append_assoc]

/-- A part of the input begins with a mark that is skipped if the whole does. -/
theorem Holds.lead_upTo (h : i.Holds (ls ++ more)) : (i.upTo ls).lead = i.lead := by
  suffices hmark : (i.upTo ls).hasMark = i.hasMark by rw [lead, hmark, lead]
  by_cases hmark : i.hasMark = true
  · have hread := (Bool.and_eq_true_iff.1 hmark).2
    rw [hmark, hasMark, upTo, lead, if_pos hmark, hread]
    rfl
  · rw [Bool.eq_false_iff.2 hmark, Bool.eq_false_iff]
    intro hpart
    obtain ⟨htake, hread⟩ := Bool.and_eq_true_iff.1 hpart
    have hlength : 3 ≤ (i.upTo ls).bytes.length := by
      have hmin : min 3 (i.upTo ls).bytes.length = 3 :=
        List.length_take.symm.trans (congrArg List.length (beq_iff_eq.1 htake))
      omega
    refine hmark (Bool.and_eq_true_iff.2 ⟨?_, hread⟩)
    rwa [h.bytes_eq, List.take_append_of_le_length hlength]

theorem Holds.rows_eq (h : i.Holds ls) :
    i.rows = rowsFrom .complete {} i.lead ([] ++ ls.flatMap Line.bytes) := by
  rw [rows, h.complete, h.bytes, lead]
  split
  · rfl
  · rfl

theorem Holds.upTo (h : i.Holds (ls ++ more)) : (i.upTo ls).Holds ls where
  toSound := h.left
  bytes := by rw [h.lead_upTo, Input.upTo]
  complete := h.complete

/-- The rows of a part of an input come first, and if they can be read they are those of its
lines. -/
theorem Holds.rows_eq_append (h : i.Holds (ls ++ more)) :
    ∃ q lead gap, (∀ b ∈ gap, isTerminator b = true) ∧
      i.rows = (i.upTo ls).rows ++ rowsFrom .complete q lead (gap ++ more.flatMap Line.bytes) ∧
        ((∀ r ∈ (i.upTo ls).rows, ∃ row, r = .ok row) →
          (i.upTo ls).rows = (rowsOf 1 ls).map .ok) := by
  have hline : ({} : Position).line + (i.lead ++ []).count lineFeed = 1 := by
    rw [lead]
    split <;> rfl
  have hgap : ∀ b ∈ ([] : List UInt8), isTerminator b = true := fun b hb =>
    absurd hb List.not_mem_nil
  obtain ⟨out, q, lead', gap, hends, hrows, hrun⟩ := rowsFrom_append h.left.whole hgap hline
  have hall := hrun more h.toSound
  have hpart := hrun [] (by simpa using h.left)
  simp only [List.flatMap_nil, List.append_nil, rowsFrom_of_terminators hends] at hpart
  rw [h.upTo.rows_eq, h.lead_upTo, hpart, h.rows_eq, hall]
  exact ⟨q, lead', gap, hends, rfl, hrows⟩

/-- If an input can be read to its end, the rows of a part of it are those of the lines. -/
theorem Holds.rows_upTo (h : i.Holds (ls ++ more)) (hok : ∀ r ∈ i.rows, ∃ row, r = .ok row) :
    (i.upTo ls).rows = (rowsOf 1 ls).map .ok := by
  obtain ⟨q, lead', gap, -, hrows, hpart⟩ := h.rows_eq_append
  exact hpart fun r hr => hok r (hrows ▸ List.mem_append_left _ hr)

/-- Behind the rows of a part of an input comes the row of the next line with a text. -/
theorem Holds.rows_eq_append_cons {l : Line} (h : i.Holds (ls ++ l :: more)) (hne : l.text ≠ []) :
    ∃ p line rest, i.rows = (i.upTo ls).rows ++ rowOfCells p line l.raw.cells :: rest := by
  obtain ⟨q, lead', gap, hgap, hrows, -⟩ := h.rows_eq_append
  have hl := h.whole l (List.mem_append_right ls List.mem_cons_self)
  have hafter : l.ending = none → more.flatMap Line.bytes = [] := by
    intro hnone
    by_contra hmore
    have hsound : Sound ((ls ++ [l]) ++ more) := by simpa using h.toSound
    refine hsound.ending_ne_none ?_ l (by simp) hnone
    rintro rfl
    exact hmore rfl
  rw [List.flatMap_cons, rowsFrom_line hl hne hgap hafter rfl] at hrows
  exact ⟨q, _, _, hrows⟩

theorem Holds.upTo_eq (h : i.Holds ls) : i.upTo ls = i := by
  rw [Input.upTo, ← h.bytes]

end Input

end TimeSeries.Csv
