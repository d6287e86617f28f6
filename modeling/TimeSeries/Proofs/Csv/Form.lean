import TimeSeries.Proofs.Csv.Lines

/-!
# Forms of a row

Whoever writes a row may put quotes around any cell, and has to if a byte of the cell would be taken
for something else. `RowForm` tells the rows that can be written for some texts; `printRow` writes
one of them. They are all read as the same cells, and white space at the ends of a text is lost
whether there are quotes around it or not: `RowForm.rows_eq` says so for a line of any input.
-/

namespace TimeSeries.Csv

/-- The bytes that a cell of this text can be written as. -/
inductive CellForm (s : String) : List UInt8 → Prop where
  | bare : (Text.utf8Bytes s).any isSpecial = false → CellForm s (Text.utf8Bytes s)
  | quoted : CellForm s (quoteMark :: (doubled (Text.utf8Bytes s) ++ [quoteMark]))

/-- The bytes that a row of these texts can be written as. -/
inductive RowForm : List String → List UInt8 → Prop where
  | last {s : String} {bytes : List UInt8} : CellForm s bytes → RowForm [s] bytes
  | cons {s : String} {texts : List String} {bytes row : List UInt8} :
    CellForm s bytes → RowForm texts row → RowForm (s :: texts) (bytes ++ comma :: row)

theorem cellForm_printCell (s : String) : CellForm s (printCell (Text.utf8Bytes s)) := by
  rw [printCell]
  split
  · exact .quoted
  · next hplain => exact .bare (Bool.eq_false_iff.2 hplain)

theorem rowForm_printRow {texts : List String} (h : texts ≠ []) :
    RowForm texts (printRow (texts.map Text.utf8Bytes)) := by
  induction texts with
  | nil => exact absurd rfl h
  | cons s texts ih =>
      cases texts with
      | nil => exact .last (cellForm_printCell s)
      | cons t texts => exact .cons (cellForm_printCell s) (ih (List.cons_ne_nil t texts))

theorem CellForm.readRow {s : String} {bytes : List UInt8} (h : CellForm s bytes)
    {tail read after : List UInt8} {more : List (List UInt8)} {ended : Bool}
    (htail : ∀ place, place ≠ .quoted → readRow place tail = ⟨[] :: more, read, after, ended⟩) :
    readRow .fresh (bytes ++ tail) =
      ⟨Text.utf8Bytes s :: more, bytes ++ read, after, ended⟩ := by
  cases h with
  | bare hplain => exact readRow_bareCell (by simpa using hplain) htail
  | quoted => exact readRow_quotedCell _ (htail .closing (by decide))

theorem RowForm.readRow_stop {texts : List String} {bytes : List UInt8} (h : RowForm texts bytes)
    (l : Line) :
    readRow .fresh (bytes ++ l.stop) =
      ⟨texts.map Text.utf8Bytes, bytes ++ l.stop, [], l.ending.isSome⟩ := by
  induction h with
  | last hcell => exact hcell.readRow fun _ => l.readRow_stop
  | cons hcell _ ih =>
      rw [List.append_assoc, List.cons_append]
      refine hcell.readRow fun place hplace => ?_
      rw [readRow_comma _ hplace, ih]
      rfl

theorem RowForm.raw_cells {texts : List String} {l : Line} (h : RowForm texts l.text) :
    l.raw.cells = texts.map Text.utf8Bytes := by
  rw [Line.raw, h.readRow_stop]

theorem RowForm.ne_nil {s : String} {texts : List String} {bytes : List UInt8}
    (h : RowForm (s :: texts) bytes) (hwide : texts ≠ []) : bytes ≠ [] := by
  cases h with
  | last _ => exact absurd rfl hwide
  | cons _ _ => simp

/-- Behind the rows of a part of an input comes the row that is written next, with its cells
trimmed. -/
theorem RowForm.rows_eq {i : Input} {ls more : List Line} {l : Line} {s : String}
    {texts : List String} (h : RowForm (s :: texts) l.text) (hwide : texts ≠ [])
    (hlines : i.Holds (ls ++ l :: more)) :
    ∃ line rest, i.rows = (i.upTo ls).rows ++ .ok ⟨(s :: texts).map Text.trim, line⟩ :: rest := by
  obtain ⟨p, line, rest, hrows⟩ := hlines.rows_eq_append_cons (h.ne_nil hwide)
  exact ⟨line, rest, by rw [hrows, h.raw_cells, rowOfCells_utf8Bytes]⟩

end TimeSeries.Csv
