import Mathlib.Data.List.Forall2
import TimeSeries.Proofs.Csv.Continuation

/-!
# Cells as they are written

The reader forgets how a cell was written. `grid` keeps it: the bytes of an input fall into rows of
cells, each with the byte behind it that ends it, and put together they are the bytes again.

Any cells may be put together in this way, as long as each of them is one for the reader: no byte
that ends a cell stands in it but between quotes, and quotes that are opened are closed. `GridFrom`
says so of whole rows, and `rowsFrom_grid` which rows are read then. So a cell of an input may be
replaced by another one, `betweenQuotes` for example, and all other cells are read as before.
-/

namespace TimeSeries.Csv

def endsCell (b : UInt8) : Bool := b == comma || isTerminator b

/-- A byte at this place belongs to the cell. -/
def Place.keeps : Place → UInt8 → Bool
  | .fresh, b | .quoted, b => b != quoteMark
  | .bare, _ | .closing, _ => true

/-- The bytes of a cell, from a place in it on, with quotes resolved. -/
def resolved : Place → List UInt8 → List UInt8
  | _, [] => []
  | place, b :: rest =>
    if place.keeps b then b :: resolved (place.step b) rest else resolved (place.step b) rest

/-- No byte ends the cell, from a place in it on. -/
def Unbroken : Place → List UInt8 → Prop
  | _, [] => True
  | place, b :: rest => (place = .quoted ∨ endsCell b = false) ∧ Unbroken (place.step b) rest

theorem unbroken_append {place : Place} {text more : List UInt8} :
    Unbroken place (text ++ more) ↔
      Unbroken place text ∧ Unbroken (text.foldl Place.step place) more := by
  induction text generalizing place with
  | nil => exact iff_of_eq (true_and _).symm
  | cons b text ih => exact (and_congr_right fun _ => ih).trans and_assoc.symm

theorem resolved_append (place : Place) (text more : List UInt8) :
    resolved place (text ++ more) =
      resolved place text ++ resolved (text.foldl Place.step place) more := by
  induction text generalizing place with
  | nil => rfl
  | cons b text ih =>
      rw [List.cons_append, resolved, resolved, ih, List.foldl_cons]
      split <;> rfl

/-- A byte that does not end the cell is kept or left out, and the reader goes on behind it. -/
theorem readRow_cons_of_unbroken {place : Place} {b : UInt8}
    (hb : place = .quoted ∨ endsCell b = false) (rest : List UInt8) :
    readRow place (b :: rest) = (readRow (place.step b) rest).behind b (place.keeps b) := by
  simp only [endsCell, Bool.or_eq_false_iff, beq_eq_false_iff_ne] at hb
  by_cases hquote : b = quoteMark
  · subst hquote
    have hcomma : quoteMark ≠ comma := by decide
    have hterminator : isTerminator quoteMark = false := by decide
    cases place <;> simp [readRow, Place.step, Place.keeps, hcomma, hterminator]
  · have hkept : (b != quoteMark) = true := bne_iff_ne.2 hquote
    cases place with
    | quoted => simp [readRow, Place.step, Place.keeps, hquote, hkept]
    | _ =>
        obtain ⟨hcomma, hterminator⟩ := hb.resolve_left (by decide)
        simp [readRow, Place.step, Place.keeps, hquote, hkept, hcomma, hterminator]

theorem readRow_of_unbroken {place : Place} {text tail read after : List UInt8}
    {more : List (List UInt8)} {ended : Bool} (htext : Unbroken place text)
    (htail : readRow (text.foldl Place.step place) tail = ⟨[] :: more, read, after, ended⟩) :
    readRow place (text ++ tail) = ⟨resolved place text :: more, text ++ read, after, ended⟩ := by
  induction text generalizing place with
  | nil => exact htail
  | cons b text ih =>
      rw [List.cons_append, readRow_cons_of_unbroken htext.1, ih htext.2 htail, resolved]
      split <;> simp_all [RawRow.behind]

section Quotes

/-- A cell with quotes around it. -/
def betweenQuotes (cell : List UInt8) : List UInt8 := quoteMark :: (doubled cell ++ [quoteMark])

theorem doubled_cons (b : UInt8) (cell : List UInt8) :
    doubled (b :: cell) = (if b = quoteMark then [b, b] else [b]) ++ doubled cell :=
  List.flatMap_cons

/-- Behind the opening quote the reader stays between the quotes up to the closing one. -/
theorem quoted_doubled (cell : List UInt8) :
    (doubled cell).foldl Place.step .quoted = .quoted ∧ Unbroken .quoted (doubled cell) ∧
      resolved .quoted (doubled cell) = cell := by
  induction cell with
  | nil => exact ⟨rfl, trivial, rfl⟩
  | cons b cell ih =>
      obtain ⟨hplace, hunbroken, hresolved⟩ := ih
      have hends : endsCell quoteMark = false := by decide
      rw [doubled_cons]
      split
      · next hquote =>
          subst hquote
          simp [Place.step, Unbroken, resolved, Place.keeps, hends, hplace, hunbroken, hresolved]
      · next hquote =>
          simp [Place.step, Unbroken, resolved, Place.keeps, hquote, hplace, hunbroken, hresolved]

theorem foldl_step_betweenQuotes (cell : List UInt8) :
    (betweenQuotes cell).foldl Place.step .fresh = .closing := by
  rw [betweenQuotes, List.foldl_cons, List.foldl_append]
  change ([quoteMark].foldl Place.step ((doubled cell).foldl Place.step .quoted)) = .closing
  rw [(quoted_doubled cell).1]
  rfl

theorem unbroken_betweenQuotes (cell : List UInt8) : Unbroken .fresh (betweenQuotes cell) := by
  refine ⟨.inr (by decide), unbroken_append.2 ⟨(quoted_doubled cell).2.1, ?_⟩⟩
  change Unbroken ((doubled cell).foldl Place.step .quoted) [quoteMark]
  rw [(quoted_doubled cell).1]
  exact ⟨.inl rfl, trivial⟩

theorem resolved_betweenQuotes (cell : List UInt8) :
    resolved .fresh (betweenQuotes cell) = cell := by
  change resolved .quoted (doubled cell ++ [quoteMark]) = cell
  rw [resolved_append, (quoted_doubled cell).1, (quoted_doubled cell).2.2]
  exact List.append_nil cell

theorem count_lineFeed_betweenQuotes (cell : List UInt8) :
    (betweenQuotes cell).count lineFeed = cell.count lineFeed := by
  have hquote : (quoteMark == lineFeed) = false := by decide
  simp [betweenQuotes, List.count_cons, hquote, count_lineFeed_doubled]

end Quotes

/-- A cell as it is written, and the byte that ends it; there is none behind the last one. -/
structure RawCell where
  text : List UInt8
  stop : Option UInt8
deriving DecidableEq, Repr

namespace RawCell

def bytes (c : RawCell) : List UInt8 := c.text ++ c.stop.toList

/-- What the reader takes for the bytes of the cell. -/
def value (c : RawCell) : List UInt8 := resolved .fresh c.text

/-- The cell behind a byte that belongs to it. -/
def behind (b : UInt8) (c : RawCell) : RawCell := { c with text := b :: c.text }

/-- The reader takes the cell for one, from a place in it on. -/
structure Sound (place : Place) (c : RawCell) : Prop where
  unbroken : Unbroken place c.text
  closed : c.stop ≠ none → c.text.foldl Place.step place ≠ .quoted

end RawCell

/-- The bytes of a row of cells. -/
def rowBytes (row : List RawCell) : List UInt8 := row.flatMap RawCell.bytes

/-- The bytes from a place in a cell on, as rows of cells. What stands behind the last terminator is
a row too, which may be empty. -/
def grid : Place → List UInt8 → List (List RawCell)
  | _, [] => [[⟨[], none⟩]]
  | place, b :: rest =>
    if place = .quoted ∨ endsCell b = false then
      (grid (place.step b) rest).modifyHead (List.modifyHead (RawCell.behind b))
    else if isTerminator b then [⟨[], some b⟩] :: grid .fresh rest
    else (grid .fresh rest).modifyHead (⟨[], some b⟩ :: ·)

/-- The cells of a row, from a place in the first one on, and the byte that ends the row. -/
inductive RowFrom : Place → Option UInt8 → List RawCell → Prop where
  | last {place : Place} {c : RawCell} :
    c.Sound place → (∀ b ∈ c.stop, isTerminator b = true) → RowFrom place c.stop [c]
  | cons {place : Place} {c : RawCell} {stop : Option UInt8} {row : List RawCell} :
    c.Sound place → c.stop = some comma → RowFrom .fresh stop row → RowFrom place stop (c :: row)

/-- Rows of cells, from a place in the first cell on. Only the last row has no end. -/
inductive GridFrom : Place → List (List RawCell) → Prop where
  | last {place : Place} {row : List RawCell} : RowFrom place none row → GridFrom place [row]
  | cons {place : Place} {b : UInt8} {row : List RawCell} {rows : List (List RawCell)} :
    RowFrom place (some b) row → GridFrom .fresh rows → GridFrom place (row :: rows)

theorem RawCell.Sound.behind {place : Place} {b : UInt8} {c : RawCell}
    (hb : place = .quoted ∨ endsCell b = false) (h : c.Sound (place.step b)) :
    (c.behind b).Sound place :=
  ⟨⟨hb, h.unbroken⟩, h.closed⟩

theorem RawCell.sound_nil {place : Place} (hplace : place ≠ .quoted) (stop : Option UInt8) :
    (⟨[], stop⟩ : RawCell).Sound place :=
  ⟨trivial, fun _ => hplace⟩

theorem RowFrom.behind {place : Place} {b : UInt8} {stop : Option UInt8} {row : List RawCell}
    (hb : place = .quoted ∨ endsCell b = false) (h : RowFrom (place.step b) stop row) :
    RowFrom place stop (row.modifyHead (RawCell.behind b)) := by
  cases h with
  | last hc hstop => exact .last (c := RawCell.behind b _) (hc.behind hb) hstop
  | cons hc hstop hrow => exact .cons (hc.behind hb) hstop hrow

theorem GridFrom.modifyHead {place start : Place} {f : List RawCell → List RawCell}
    (hf : ∀ stop row, RowFrom start stop row → RowFrom place stop (f row))
    {rows : List (List RawCell)} (h : GridFrom start rows) :
    GridFrom place (rows.modifyHead f) := by
  cases h with
  | last hrow => exact .last (hf _ _ hrow)
  | cons hrow hrows => exact .cons (hf _ _ hrow) hrows

/-- The rows of any bytes are rows for the reader. -/
theorem gridFrom_grid (place : Place) (bytes : List UInt8) : GridFrom place (grid place bytes) := by
  induction bytes generalizing place with
  | nil =>
      have hcell : (⟨[], none⟩ : RawCell).Sound place := ⟨trivial, fun hstop => absurd rfl hstop⟩
      exact .last (.last hcell fun b hb => by cases hb)
  | cons b rest ih =>
      rw [grid]
      split
      · next hb => exact (ih _).modifyHead fun _ _ hrow => hrow.behind hb
      · next hb =>
          obtain ⟨hplace, hends⟩ := not_or.1 hb
          split
          · next hterminator =>
              refine .cons (.last (RawCell.sound_nil hplace (some b)) fun d hd => ?_) (ih .fresh)
              rwa [← Option.some.inj hd]
          · next hterminator =>
              have hcomma : b = comma := by
                simpa [endsCell, hterminator] using hends
              exact (ih .fresh).modifyHead fun _ _ hrow =>
                .cons (RawCell.sound_nil hplace (some b)) (congrArg some hcomma) hrow

theorem GridFrom.ne_nil {place : Place} {rows : List (List RawCell)} (h : GridFrom place rows) :
    rows ≠ [] := by
  cases h <;> exact List.cons_ne_nil _ _

theorem flatMap_rowBytes_modifyHead {f : List RawCell → List RawCell} {b : UInt8}
    {place : Place} (hf : ∀ stop row, RowFrom place stop row → rowBytes (f row) = b :: rowBytes row)
    {rows : List (List RawCell)} (h : GridFrom place rows) :
    (rows.modifyHead f).flatMap rowBytes = b :: rows.flatMap rowBytes := by
  cases h with
  | last hrow => simp [hf _ _ hrow]
  | cons hrow _ => simp [hf _ _ hrow]

theorem rowBytes_behind (b : UInt8) {place : Place} {stop : Option UInt8} {row : List RawCell}
    (h : RowFrom place stop row) :
    rowBytes (row.modifyHead (RawCell.behind b)) = b :: rowBytes row := by
  cases h <;> rfl

/-- Nothing is lost: the cells of all rows put together are the bytes. -/
theorem flatMap_rowBytes_grid (place : Place) (bytes : List UInt8) :
    (grid place bytes).flatMap rowBytes = bytes := by
  induction bytes generalizing place with
  | nil => rfl
  | cons b rest ih =>
      rw [grid]
      split
      · rw [flatMap_rowBytes_modifyHead (fun _ _ hrow => rowBytes_behind b hrow)
          (gridFrom_grid _ rest), ih]
      · split
        · exact congrArg (b :: ·) (ih .fresh)
        · rw [flatMap_rowBytes_modifyHead (fun _ _ _ => rfl) (gridFrom_grid _ rest), ih]

/-- The values of cells, from a place in the first one on. -/
def valuesFrom : Place → List RawCell → List (List UInt8)
  | _, [] => []
  | place, c :: row => resolved place c.text :: valuesFrom .fresh row

theorem valuesFrom_fresh (row : List RawCell) : valuesFrom .fresh row = row.map RawCell.value := by
  induction row with
  | nil => rfl
  | cons c row ih => exact congrArg (resolved .fresh c.text :: ·) ih

/-- A row is read up to its end, and its cells have their values. -/
theorem RowFrom.readRow {place : Place} {stop : Option UInt8} {row : List RawCell}
    (h : RowFrom place stop row) {after : List UInt8} (hlast : stop = none → after = []) :
    Csv.readRow place (rowBytes row ++ after) =
      ⟨valuesFrom place row, rowBytes row, after, stop.isSome⟩ := by
  induction h with
  | @last place c hc hstop =>
      have htail : Csv.readRow (c.text.foldl Place.step place) (c.stop.toList ++ after) =
          ⟨[[]], c.stop.toList, after, c.stop.isSome⟩ := by
        cases hstopped : c.stop with
        | none =>
            rw [hlast hstopped]
            rfl
        | some b =>
            exact readRow_terminator (hstop b hstopped) after
              (hc.closed (by rw [hstopped]; exact Option.some_ne_none b))
      have hread := readRow_of_unbroken hc.unbroken htail
      simpa [rowBytes, RawCell.bytes, valuesFrom] using hread
  | @cons place c stop row hc hcomma _ ih =>
      have htail : Csv.readRow (c.text.foldl Place.step place) (comma :: (rowBytes row ++ after)) =
          ⟨[] :: valuesFrom .fresh row, comma :: rowBytes row, after, stop.isSome⟩ := by
        rw [readRow_comma _ (hc.closed (by rw [hcomma]; exact Option.some_ne_none comma)),
          ih hlast]
        rfl
      have hread := readRow_of_unbroken hc.unbroken htail
      simpa [rowBytes, RawCell.bytes, hcomma, valuesFrom] using hread

/-- The rows of cells behind a position, of which `lead` come in front of the first row. A row
without a byte in front of its end is no row. -/
def rowsOfGrid : Position → List UInt8 → List (List RawCell) → List (Except RowFault Row)
  | _, _, [] => []
  | p, lead, row :: rows =>
    if row.map RawCell.text = [[]] then rowsOfGrid p (lead ++ rowBytes row) rows
    else
      let next := p.advance (lead ++ rowBytes row)
      rowOfCells p next.line (row.map RawCell.value) :: rowsOfGrid next [] rows

theorem RowFrom.isTerminator_of_blank {stop : Option UInt8} {row : List RawCell}
    (h : RowFrom .fresh stop row) (hblank : row.map RawCell.text = [[]]) :
    ∀ b ∈ rowBytes row, isTerminator b = true := by
  cases h with
  | last _ hstop =>
      have htext := List.head_eq_of_cons_eq hblank
      intro b hb
      refine hstop b ?_
      simpa [rowBytes, RawCell.bytes, htext] using hb
  | cons _ _ hrow => cases hrow <;> cases List.tail_eq_of_cons_eq hblank

/-- A row that is not empty begins with a byte that ends no row. -/
theorem RowFrom.rowBytes_eq_cons {stop : Option UInt8} {row : List RawCell}
    (h : RowFrom .fresh stop row) (hwritten : row.map RawCell.text ≠ [[]]) :
    ∃ b rest, rowBytes row = b :: rest ∧ isTerminator b = false := by
  have hcell : ∀ c : RawCell, c.Sound .fresh → c.text ≠ [] →
      ∃ b rest, c.text = b :: rest ∧ isTerminator b = false := by
    intro c hc hne
    obtain ⟨b, rest, htext⟩ := List.exists_cons_of_ne_nil hne
    have hunbroken := hc.unbroken
    rw [htext] at hunbroken
    have hb := hunbroken.1.resolve_left (by decide)
    exact ⟨b, rest, htext, (Bool.or_eq_false_iff.1 hb).2⟩
  cases h with
  | last hc _ =>
      obtain ⟨b, rest, htext, hb⟩ :=
        hcell _ hc fun hnil => hwritten (by rw [List.map_singleton, hnil])
      exact ⟨b, rest ++ _, by simp [rowBytes, RawCell.bytes, htext]; rfl, hb⟩
  | @cons _ c _ row hc hcomma _ =>
      by_cases hnil : c.text = []
      · exact ⟨comma, rowBytes row, by simp [rowBytes, RawCell.bytes, hnil, hcomma], by decide⟩
      · obtain ⟨b, rest, htext, hb⟩ := hcell _ hc hnil
        exact ⟨b, rest ++ comma :: rowBytes row,
          by simp [rowBytes, RawCell.bytes, htext, hcomma], hb⟩

theorem RowFrom.rowsFrom {stop : Option UInt8} {row : List RawCell} (h : RowFrom .fresh stop row)
    {after : List UInt8} (hlast : stop = none → after = [])
    (hwritten : row.map RawCell.text ≠ [[]]) (p : Position) (lead : List UInt8) :
    Csv.rowsFrom .complete p lead (rowBytes row ++ after) =
      rowOfCells p (p.advance (lead ++ rowBytes row)).line (row.map RawCell.value) ::
        Csv.rowsFrom .complete (p.advance (lead ++ rowBytes row)) [] after := by
  obtain ⟨b, rest, hbytes, hb⟩ := h.rowBytes_eq_cons hwritten
  have hread := h.readRow hlast
  rw [valuesFrom_fresh, hbytes, List.cons_append] at hread
  have hgap : ∀ d ∈ ([] : List UInt8), isTerminator d = true := fun d hd => by cases hd
  have hrows := rowsFrom_of_readRow hgap hb hread p lead
  rw [hbytes]
  simpa using hrows

/-- Rows of cells that are put together are read as these rows. -/
theorem GridFrom.rowsFrom {rows : List (List RawCell)} (h : GridFrom .fresh rows) (p : Position)
    (lead : List UInt8) :
    Csv.rowsFrom .complete p lead (rows.flatMap rowBytes) = rowsOfGrid p lead rows := by
  generalize hplace : Place.fresh = place at h
  induction h generalizing p lead with
  | @last _ row hrow =>
      subst hplace
      rw [List.flatMap_singleton, rowsOfGrid]
      split
      · next hblank =>
          exact rowsFrom_of_terminators (hrow.isTerminator_of_blank hblank) p lead
      · next hwritten =>
          have hread := hrow.rowsFrom (fun _ => rfl) hwritten p lead
          rw [List.append_nil] at hread
          rw [hread, rowsFrom_of_terminators fun b hb => by cases hb]
          rfl
  | @cons _ b row rows hrow _ ih =>
      subst hplace
      rw [List.flatMap_cons, rowsOfGrid]
      split
      · next hblank =>
          rw [rowsFrom_gap (hrow.isTerminator_of_blank hblank), ih _ _ rfl]
      · next hwritten =>
          rw [hrow.rowsFrom (fun hnone => by cases hnone) hwritten, ih _ _ rfl]

/-- Every input that is complete is read as the rows of its cells. -/
theorem rowsFrom_grid (p : Position) (lead bytes : List UInt8) :
    rowsFrom .complete p lead bytes = rowsOfGrid p lead (grid .fresh bytes) := by
  rw [← (gridFrom_grid .fresh bytes).rowsFrom, flatMap_rowBytes_grid]

section Replacing

/-- A cell that may stand in the place of another one. -/
structure RawCell.Fits (c c' : RawCell) : Prop where
  stop : c'.stop = c.stop
  sound : c.Sound .fresh → c'.Sound .fresh

theorem RawCell.Fits.refl (c : RawCell) : c.Fits c := ⟨rfl, id⟩

theorem RawCell.fits_betweenQuotes (c : RawCell) (cell : List UInt8) :
    c.Fits ⟨betweenQuotes cell, c.stop⟩ where
  stop := rfl
  sound _ := by
    refine ⟨unbroken_betweenQuotes cell, fun _ => ?_⟩
    rw [foldl_step_betweenQuotes]
    decide

theorem RowFrom.replace {stop : Option UInt8} {row row' : List RawCell}
    (h : RowFrom .fresh stop row) (hcells : List.Forall₂ RawCell.Fits row row') :
    RowFrom .fresh stop row' := by
  induction hcells with
  | nil => exact h
  | @cons c c' row row' hc _ ih =>
      cases h with
      | last hsound hstop =>
          cases row' with
          | nil =>
              rw [← hc.stop] at hstop ⊢
              exact .last (hc.sound hsound) hstop
          | cons _ _ => contradiction
      | cons hsound hcomma hrow => exact .cons (hc.sound hsound) (hc.stop.trans hcomma) (ih hrow)

theorem GridFrom.replace {rows rows' : List (List RawCell)} (h : GridFrom .fresh rows)
    (hrows : List.Forall₂ (List.Forall₂ RawCell.Fits) rows rows') : GridFrom .fresh rows' := by
  induction hrows with
  | nil => exact h
  | @cons row row' rows rows' hrow _ ih =>
      cases h with
      | last hlast =>
          cases rows' with
          | nil => exact .last (hlast.replace hrow)
          | cons _ _ => contradiction
      | cons hfirst hrest => exact .cons (hfirst.replace hrow) (ih hrest)

end Replacing

theorem trim_cellText (cell : List UInt8) : Text.trim (cellText cell) = cellText cell := by
  rw [cellText]
  split
  · exact Text.trim_trim _
  · rfl

/-- A row can be read if and only if its cells are encoded texts, wherever it stands. -/
theorem exists_rowOfCells_iff {p : Position} {line : Nat} {cells : List (List UInt8)} :
    (∃ row, rowOfCells p line cells = .ok row) ↔ ∀ cell ∈ cells, ∃ s, cell = Text.utf8Bytes s := by
  constructor
  · rintro ⟨row, hrow⟩ cell hcell
    simp only [rowOfCells] at hrow
    split at hrow
    · next texts htexts =>
        have hbytes := eq_map_utf8Bytes_of_cellTexts htexts
        split at hbytes
        · rw [hbytes] at hcell
          obtain ⟨s, -, hs⟩ := List.mem_map.1 hcell
          exact ⟨s, hs.symm⟩
        · have hmem : Text.trimEnds Text.isAsciiBlank cell ∈ texts.map Text.utf8Bytes :=
            hbytes ▸ List.mem_map_of_mem hcell
          obtain ⟨s, -, hs⟩ := List.mem_map.1 hmem
          obtain ⟨t, ht, -⟩ := Text.exists_utf8Bytes_of_trimEnds hs.symm
          exact ⟨t, ht⟩
    · cases hrow
  · intro hcells
    obtain ⟨texts, htexts⟩ : ∃ texts : List String, cells = texts.map Text.utf8Bytes := by
      induction cells with
      | nil => exact ⟨[], rfl⟩
      | cons cell cells ih =>
          obtain ⟨s, hs⟩ := hcells cell List.mem_cons_self
          obtain ⟨texts, htexts⟩ := ih fun c hc => hcells c (List.mem_cons_of_mem cell hc)
          exact ⟨s :: texts, by rw [hs, htexts, List.map_cons]⟩
    exact ⟨_, htexts ▸ rowOfCells_utf8Bytes p line texts⟩

/-- An input that breaks off is never read without a fault. -/
theorem broken_mem_rowsFrom (reason : String) (p : Position) (lead bytes : List UInt8) :
    .error (.broken reason) ∈ rowsFrom (.broken reason) p lead bytes := by
  fun_induction rowsFrom (.broken reason) p lead bytes with
  | case1 => exact List.mem_cons_self
  | case2 => exact List.mem_cons_self
  | case3 _ _ _ _ _ _ _ _ _ _ _ ih => exact List.mem_cons_of_mem _ ih

end TimeSeries.Csv
