import TimeSeries.Proofs.Csv.Lines

/-!
# An input that goes on

The reader decides on a row when the row ends. So if an input ends with a line feed, and not inside
of quotes, its rows stay what they are when other bytes follow.

Whether bytes end inside of quotes is told by walking through them with the place in a cell where
the reader stands, and nothing else: `Place.step`. The reader walks the same way, row by row, and a
row it has not seen the end of has come up to a line feed between quotes.
-/

namespace TimeSeries.Csv

/-- The place behind a byte. Behind a terminator it is the beginning of the next row. -/
def Place.step : Place → UInt8 → Place
  | .quoted, b => if b = quoteMark then .closing else .quoted
  | .bare, b => if b = comma ∨ isTerminator b then .fresh else .bare
  | .fresh, b | .closing, b =>
    if b = quoteMark then .quoted
    else if b = comma ∨ isTerminator b then .fresh
    else .bare

/-- The bytes end with a line feed that does not stand between quotes. -/
def EndsWithRow (bytes : List UInt8) : Prop :=
  ∃ body, bytes = body ++ [lineFeed] ∧ body.foldl Place.step .fresh ≠ .quoted

theorem step_terminator {b : UInt8} (hb : isTerminator b = true) {place : Place}
    (hplace : place ≠ .quoted) : place.step b = .fresh := by
  have hquote : b ≠ quoteMark := by
    rintro rfl
    exact absurd hb (by decide)
  cases place with
  | quoted => exact absurd rfl hplace
  | _ => simp [Place.step, hquote, hb]

theorem foldl_step_terminators {gap : List UInt8} (hgap : ∀ b ∈ gap, isTerminator b = true) :
    gap.foldl Place.step .fresh = .fresh := by
  induction gap with
  | nil => rfl
  | cons b gap ih =>
      rw [List.foldl_cons, step_terminator (hgap b List.mem_cons_self) (by decide)]
      exact ih fun d hd => hgap d (List.mem_cons_of_mem b hd)

/-- The reader ends a row at a terminator, and otherwise goes on from the place behind the byte. -/
theorem ended_readRow_cons (place : Place) (b : UInt8) (rest : List UInt8) :
    (readRow place (b :: rest)).ended =
      if place ≠ .quoted ∧ isTerminator b = true then true
      else (readRow (place.step b) rest).ended := by
  by_cases hb : place ≠ .quoted ∧ isTerminator b = true
  · rw [if_pos hb, readRow_terminator hb.2 rest hb.1]
  · rw [if_neg hb]
    cases place <;> simp only [readRow, Place.step] <;> repeat' split
    all_goals simp_all [RawRow.behind, RawRow.behindComma]

theorem foldl_step_read {place : Place} {bytes : List UInt8}
    (h : (readRow place bytes).ended = true) :
    (readRow place bytes).read.foldl Place.step place = .fresh := by
  have hcomma : comma ≠ quoteMark := by decide
  fun_induction readRow place bytes <;> simp_all [RawRow.behind, RawRow.behindComma, Place.step]

/-- A row that does not end in front of a line feed takes it for a part of a quoted cell. -/
theorem foldl_step_of_open {place : Place} {body : List UInt8}
    (h : (readRow place (body ++ [lineFeed])).ended = false) :
    body.foldl Place.step place = .quoted := by
  induction body generalizing place with
  | nil =>
      by_contra hplace
      have hlast : readRow place [lineFeed] = ⟨[[]], [lineFeed], [], true⟩ :=
        readRow_terminator (by decide) [] hplace
      rw [List.nil_append, hlast] at h
      cases h
  | cons b body ih =>
      rw [List.cons_append, ended_readRow_cons] at h
      split at h
      · cases h
      · exact ih h

theorem EndsWithRow.of_append {front back : List UInt8} (h : EndsWithRow (front ++ back))
    (hfront : front.foldl Place.step .fresh = .fresh) (hback : back ≠ []) : EndsWithRow back := by
  obtain ⟨body, heq, hplace⟩ := h
  obtain ⟨tail, last, rfl⟩ := (List.eq_nil_or_concat' back).resolve_left hback
  rw [← List.append_assoc] at heq
  obtain ⟨rfl, hlast⟩ := List.append_inj' heq rfl
  rw [List.foldl_append, hfront] at hplace
  exact ⟨tail, by rw [hlast], hplace⟩

/-- A row at the front of bytes that end with a row has an end, and so have the bytes behind it. -/
theorem EndsWithRow.front {bytes : List UInt8} (h : EndsWithRow bytes) :
    (readRow .fresh bytes).ended = true ∧
      ((readRow .fresh bytes).rest ≠ [] → EndsWithRow (readRow .fresh bytes).rest) := by
  have hended : (readRow .fresh bytes).ended = true := by
    obtain ⟨body, rfl, hplace⟩ := h
    by_contra hopen
    exact hplace (foldl_step_of_open (Bool.eq_false_iff.2 hopen))
  rw [← readRow_read_append_rest .fresh bytes] at h
  exact ⟨hended, h.of_append (foldl_step_read hended)⟩

theorem rowsFrom_eq (ending : Ending) (p : Position) (lead bytes : List UInt8) :
    rowsFrom ending p lead bytes =
      match bytes.dropWhile isTerminator with
      | [] => ending.report
      | b :: rest =>
        if (readRow .fresh (b :: rest)).ended = false ∧ ending ≠ .complete then ending.report
        else
          let next := p.advance
            (lead ++ bytes.takeWhile isTerminator ++ (readRow .fresh (b :: rest)).read)
          rowOfCells p next.line (readRow .fresh (b :: rest)).cells ::
            rowsFrom ending next [] (readRow .fresh (b :: rest)).rest := by
  rw [rowsFrom]
  split
  · next heq => simp only [heq]
  · next heq => simp only [heq]

theorem rowsFrom_gap {gap : List UInt8} (hgap : ∀ b ∈ gap, isTerminator b = true)
    (ending : Ending) (p : Position) (lead more : List UInt8) :
    rowsFrom ending p lead (gap ++ more) = rowsFrom ending p (lead ++ gap) more := by
  rw [rowsFrom_eq, rowsFrom_eq ending p (lead ++ gap), List.takeWhile_append_of_pos hgap,
    List.dropWhile_append_of_pos hgap, List.append_assoc lead gap]

/-- A row that has an end is the next one, however the input ends. -/
theorem rowsFrom_of_ended {b : UInt8} {rest : List UInt8} (hb : isTerminator b = false)
    (hended : (readRow .fresh (b :: rest)).ended = true) (ending : Ending) (p : Position)
    (lead : List UInt8) :
    rowsFrom ending p lead (b :: rest) =
      rowOfCells p (p.advance (lead ++ (readRow .fresh (b :: rest)).read)).line
          (readRow .fresh (b :: rest)).cells ::
        rowsFrom ending (p.advance (lead ++ (readRow .fresh (b :: rest)).read)) []
          (readRow .fresh (b :: rest)).rest := by
  have hneg : ¬isTerminator b = true := by simp [hb]
  rw [rowsFrom_eq, List.dropWhile_cons_of_neg hneg, List.takeWhile_cons_of_neg hneg]
  simp [hended]

/-- The rows of bytes that end with a row come first, whatever bytes follow. -/
theorem rowsFrom_append_of_endsWithRow {bytes : List UInt8} (h : bytes ≠ [] → EndsWithRow bytes)
    (p : Position) (lead : List UInt8) :
    ∃ q lead', ∀ ending more,
      rowsFrom ending p lead (bytes ++ more) =
        rowsFrom .complete p lead bytes ++ rowsFrom ending q lead' more := by
  induction hn : bytes.length using Nat.strongRecOn generalizing bytes p lead with
  | _ n ih =>
  obtain ⟨gap, hgap⟩ : ∃ gap, gap = bytes.takeWhile isTerminator := ⟨_, rfl⟩
  have hterminators : ∀ b ∈ gap, isTerminator b = true := by
    rw [hgap]
    exact fun b hb => List.mem_takeWhile_imp hb
  have hbytes : gap ++ bytes.dropWhile isTerminator = bytes := by
    rw [hgap, List.takeWhile_append_dropWhile]
  cases hdrop : bytes.dropWhile isTerminator with
  | nil =>
      -- nothing but terminators, which come in front of the next row
      rw [hdrop, List.append_nil] at hbytes
      subst hbytes
      refine ⟨p, lead ++ gap, fun ending more => ?_⟩
      rw [rowsFrom_gap hterminators, rowsFrom_of_terminators hterminators, List.nil_append]
  | cons b rest =>
      have hb : isTerminator b = false := by
        have hhead := List.head?_dropWhile_not isTerminator bytes
        rw [hdrop] at hhead
        simpa using hhead
      rw [hdrop] at hbytes
      subst hbytes
      have hrow : EndsWithRow (b :: rest) :=
        (h (by simp)).of_append (foldl_step_terminators hterminators) (List.cons_ne_nil b rest)
      obtain ⟨hended, hrest⟩ := hrow.front
      obtain ⟨raw, hraw⟩ : ∃ raw, raw = readRow .fresh (b :: rest) := ⟨_, rfl⟩
      have hshort : raw.rest.length < n := by
        have hlt := length_rest_lt .fresh b rest
        rw [← hn, List.length_append, hraw]
        omega
      rw [← hraw] at hended hrest
      obtain ⟨q, lead', hlater⟩ := ih _ hshort hrest
        (p.advance (lead ++ gap ++ raw.read)) [] rfl
      refine ⟨q, lead', fun ending more => ?_⟩
      have hmore : readRow .fresh (b :: (rest ++ more)) = { raw with rest := raw.rest ++ more } := by
        rw [hraw] at hended ⊢
        exact readRow_append hended more
      rw [List.append_assoc, rowsFrom_gap hterminators, rowsFrom_gap hterminators,
        List.cons_append, rowsFrom_of_ended hb (by rw [hmore, hended]),
        rowsFrom_of_ended hb (by rw [← hraw, hended]), hmore, ← hraw, hlater, List.cons_append]

namespace Input

/-- The bytes behind the byte order mark, if it is skipped. -/
def content (i : Input) : List UInt8 := if i.hasMark then i.bytes.drop 3 else i.bytes

theorem rows_eq (i : Input) : i.rows = rowsFrom i.ending {} i.lead i.content := by
  rw [rows, lead, content]
  split <;> rfl

theorem lineFeed_mem_of_content {i : Input} (h : EndsWithRow i.content) : lineFeed ∈ i.bytes := by
  obtain ⟨body, hbody, -⟩ := h
  have hmem : lineFeed ∈ i.content := by
    rw [hbody]
    exact List.mem_append_right body List.mem_cons_self
  rw [content] at hmem
  split at hmem
  · exact List.mem_of_mem_drop hmem
  · exact hmem

section Append

variable {bytes : List UInt8} {firstRead : Option Nat} {ending : Ending}

/-- Other bytes behind a row do not make a mark of what is none. -/
theorem hasMark_append (h : EndsWithRow (content ⟨bytes, firstRead, ending⟩)) (more : List UInt8)
    (later : Ending) :
    hasMark ⟨bytes ++ more, firstRead, later⟩ = hasMark ⟨bytes, firstRead, ending⟩ := by
  rw [hasMark, hasMark]
  by_cases hlong : 3 ≤ bytes.length
  · rw [List.take_append_of_le_length hlong]
  · -- there is a line feed among the first bytes, and none in a mark
    have hnone : ∀ first : List UInt8, lineFeed ∈ first → (first == byteOrderMark) = false := by
      rintro first hfirst
      rw [beq_eq_false_iff_ne]
      rintro rfl
      exact absurd hfirst (by decide)
    have hmem : lineFeed ∈ bytes.take 3 := by
      rw [List.take_of_length_le (Nat.le_of_not_le hlong)]
      exact lineFeed_mem_of_content h
    have hmore : lineFeed ∈ (bytes ++ more).take 3 := by
      rw [List.take_append]
      exact List.mem_append_left _ hmem
    rw [hnone _ hmem, hnone _ hmore]

theorem content_append (h : EndsWithRow (content ⟨bytes, firstRead, ending⟩)) (more : List UInt8)
    (later : Ending) :
    content ⟨bytes ++ more, firstRead, later⟩ = content ⟨bytes, firstRead, ending⟩ ++ more := by
  rw [content, content, hasMark_append h]
  split
  · next hmark =>
      have htake := beq_iff_eq.1 (Bool.and_eq_true_iff.1 hmark).1
      have hlength : 3 ≤ bytes.length := by
        have hmin : min 3 bytes.length = 3 :=
          List.length_take.symm.trans (congrArg List.length htake)
        omega
      exact List.drop_append_of_le_length hlength
  · rfl

end Append

/-- The rows of a complete input that ends with a row come first when other bytes follow. -/
theorem exists_rows_append {bytes : List UInt8} {firstRead : Option Nat}
    (h : EndsWithRow (content ⟨bytes, firstRead, .complete⟩)) (more : List UInt8)
    (ending : Ending) :
    ∃ later, rows ⟨bytes ++ more, firstRead, ending⟩ =
      rows ⟨bytes, firstRead, .complete⟩ ++ later := by
  obtain ⟨q, lead', hrows⟩ := rowsFrom_append_of_endsWithRow (fun _ => h) {}
    (lead ⟨bytes, firstRead, .complete⟩)
  refine ⟨rowsFrom ending q lead' more, ?_⟩
  have hlead : lead ⟨bytes ++ more, firstRead, ending⟩ = lead ⟨bytes, firstRead, .complete⟩ := by
    rw [lead, lead, hasMark_append h]
  rw [rows_eq, rows_eq, content_append h, hlead]
  exact hrows ending more

end Input

end TimeSeries.Csv
