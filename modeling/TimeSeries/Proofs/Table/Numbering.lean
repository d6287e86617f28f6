import TimeSeries.Proofs.Table.Boundary
import TimeSeries.Proofs.Table.Calls
import TimeSeries.Proofs.Table.Current
import TimeSeries.Proofs.Table.Turn

/-!
# The numbers of tables

Tables are numbered in the order in which they start, and a record bears the number of its table.
Events are `InOrder` if a reader can follow this: the numbers of the tables that it has been told of
have no gaps, and a record belongs to the table told last.

A fault in the first row of a table uses up the number of the table, without a table being told: the
row is lost, and later records bear a number that the reader has never heard of. Nothing else comes
in between. So whatever faults a reader goes on behind, numbers are ahead by the lost rows, and
events are in order up to the first one behind a lost row.
-/

namespace TimeSeries

/-- The numbers of the tables among events. -/
def positions : List Event → List Nat
  | [] => []
  | .table h :: rest => h.position :: positions rest
  | .record _ :: rest => positions rest

/-- Every record bears the number of the last table in front of it, behind a table told before. -/
def Attributed : Option TableHead → List Event → Prop
  | _, [] => True
  | _, .table h :: rest => Attributed (some h) rest
  | last, .record r :: rest => last.map TableHead.position = some r.table ∧ Attributed last rest

/-- Tables are numbered without gaps, and every record belongs to the table told last. -/
structure InOrder (events : List Event) : Prop where
  positions : positions events = List.range (tablesIn events)
  attributed : Attributed none events

instance decidableAttributed : (last : Option TableHead) → (events : List Event) →
    Decidable (Attributed last events)
  | _, [] => .isTrue trivial
  | _, .table h :: rest => decidableAttributed (some h) rest
  | last, .record r :: rest =>
    have := decidableAttributed last rest
    inferInstanceAs (Decidable (last.map TableHead.position = some r.table ∧ Attributed last rest))

instance (events : List Event) : Decidable (InOrder events) :=
  decidable_of_iff
    (TimeSeries.positions events = List.range (tablesIn events) ∧ Attributed none events)
    ⟨fun h => ⟨h.1, h.2⟩, fun h => ⟨h.1, h.2⟩⟩

theorem tablesIn_append (events more : List Event) :
    tablesIn (events ++ more) = tablesIn events + tablesIn more := by
  induction events with
  | nil => rw [List.nil_append, tablesIn, Nat.zero_add]
  | cons e events ih =>
      cases e with
      | table h => rw [List.cons_append, tablesIn, tablesIn, ih, Nat.add_right_comm]
      | record r => exact ih

theorem positions_append (events more : List Event) :
    positions (events ++ more) = positions events ++ positions more := by
  induction events with
  | nil => rfl
  | cons e events ih =>
      cases e with
      | table h => rw [List.cons_append, positions, positions, ih, List.cons_append]
      | record r => exact ih

theorem length_positions (events : List Event) : (positions events).length = tablesIn events := by
  induction events with
  | nil => rfl
  | cons e events ih =>
      cases e with
      | table h => rw [positions, List.length_cons, ih, tablesIn]
      | record r => exact ih

theorem attributed_append (last : Option TableHead) (events more : List Event) :
    Attributed last (events ++ more) ↔
      Attributed last events ∧ Attributed (latest last events) more := by
  induction events generalizing last with
  | nil => exact iff_of_eq (true_and _).symm
  | cons e events ih =>
      cases e with
      | table h => exact ih (some h)
      | record r => exact (and_congr_right fun _ => ih last).trans and_assoc.symm

theorem map_position_latest (last : Option TableHead) (events : List Event) :
    (latest last events).map TableHead.position =
      (positions events).getLast?.or (last.map TableHead.position) := by
  induction events generalizing last with
  | nil => rfl
  | cons e events ih =>
      cases e with
      | table h =>
          rw [latest, ih, positions, List.getLast?_cons]
          cases (positions events).getLast? <;> rfl
      | record r => exact ih last

theorem inOrder_append_table {events : List Event} {h : TableHead} :
    InOrder (events ++ [.table h]) ↔ InOrder events ∧ h.position = tablesIn events := by
  have hpositions : positions (events ++ [.table h]) = List.range (tablesIn events + 1) ↔
      positions events = List.range (tablesIn events) ∧ h.position = tablesIn events := by
    rw [positions_append, List.range_succ]
    constructor
    · intro heq
      obtain ⟨hfront, hlast⟩ := List.append_inj heq (by rw [length_positions, List.length_range])
      exact ⟨hfront, List.head_eq_of_cons_eq hlast⟩
    · rintro ⟨hfront, hlast⟩
      rw [hfront, positions, positions, hlast]
  constructor
  · rintro ⟨hnumbers, hrecords⟩
    rw [tablesIn_append] at hnumbers
    obtain ⟨hfront, hlast⟩ := hpositions.1 hnumbers
    exact ⟨⟨hfront, ((attributed_append _ _ _).1 hrecords).1⟩, hlast⟩
  · rintro ⟨⟨hfront, hrecords⟩, hlast⟩
    refine ⟨?_, (attributed_append _ _ _).2 ⟨hrecords, trivial⟩⟩
    rw [tablesIn_append]
    exact hpositions.2 ⟨hfront, hlast⟩

theorem inOrder_append_record {events : List Event} {r : Record} :
    InOrder (events ++ [.record r]) ↔ InOrder events ∧ r.table + 1 = tablesIn events := by
  have hlatest : InOrder events →
      ((latest none events).map TableHead.position = some r.table ↔
        r.table + 1 = tablesIn events) := by
    intro hevents
    rw [map_position_latest, hevents.positions, List.getLast?_range]
    split
    · simp_all
    · simp only [Option.map_none, Option.or_none, Option.some.injEq]
      omega
  constructor
  · rintro ⟨hnumbers, hrecords⟩
    obtain ⟨hfront, hlast, -⟩ := (attributed_append _ _ _).1 hrecords
    have hevents : InOrder events := ⟨by simpa [positions_append, tablesIn_append, positions,
      tablesIn] using hnumbers, hfront⟩
    exact ⟨hevents, (hlatest hevents).1 hlast⟩
  · rintro ⟨hevents, hlast⟩
    refine ⟨?_, (attributed_append _ _ _).2
      ⟨hevents.attributed, (hlatest hevents).2 hlast, trivial⟩⟩
    simpa [positions_append, tablesIn_append, positions, tablesIn] using hevents.positions

namespace ScanState

variable {d : Destinations} {s s' : ScanState} {out : List (Except TableError Event)}

/-- The row begins a table, but it holds a cell that cannot be read. -/
def loses (s : ScanState) : Except Csv.RowFault Csv.Row → Bool
  | .error _ => false
  | .ok row =>
    match row.cells, s.block with
    | "" :: cells, some h =>
      s.mode = .data && cells ≠ [] && cells.length = h.columns.length &&
        (s.reach row false).begins h cells && !(readCells h.columns cells).isOk
    | _, _ => false

/-- The results of some rows, each with the mark of its row: whether it loses a table. -/
def marked (d : Destinations) (s : ScanState) :
    List (Except Csv.RowFault Csv.Row) → List (Except TableError Event × Bool)
  | [] => []
  | row :: rows => (s.next d row).2.map (·, s.loses row) ++ (s.next d row).1.marked d rows

theorem map_fst_marked (d : Destinations) (s : ScanState)
    (rows : List (Except Csv.RowFault Csv.Row)) :
    (s.marked d rows).map Prod.fst = (s.run d rows).2 := by
  induction rows generalizing s with
  | nil => rfl
  | cons row rows ih =>
      rw [marked, List.map_append, ih, List.map_map]
      simp [run, Function.comp_def]

/-- The events among marked results. -/
def told (marks : List (Except TableError Event × Bool)) : List Event :=
  marks.filterMap fun m => m.1.toOption

/-- How many tables have been lost. -/
def lost (marks : List (Except TableError Event × Bool)) : Nat := marks.countP Prod.snd

/-- An event bears the number that follows from the tables told and the tables lost before. -/
def Bears (told lost : Nat) : Event → Prop
  | .table h => h.position = told + lost
  | .record r => told ≠ 0 ∧ r.table + 1 = told + lost

/-- All events bear the right numbers, behind some tables that were told or lost before. -/
def Follows : Nat → Nat → List (Except TableError Event × Bool) → Prop
  | _, _, [] => True
  | t, l, (.ok e, mark) :: rest => Bears t l e ∧ Follows (t + tablesIn [e]) (l + mark.toNat) rest
  | t, l, (.error _, mark) :: rest => Follows t (l + mark.toNat) rest

theorem lost_cons (result : Except TableError Event) (mark : Bool)
    (marks : List (Except TableError Event × Bool)) :
    lost ((result, mark) :: marks) = mark.toNat + lost marks := by
  cases mark <;> simp [lost, Nat.add_comm]

section Numbers

variable {t l : Nat}

theorem follows_append {marks more : List (Except TableError Event × Bool)} :
    Follows t l (marks ++ more) ↔
      Follows t l marks ∧ Follows (t + tablesIn (told marks)) (l + lost marks) more := by
  induction marks generalizing t l with
  | nil => exact iff_of_eq (true_and _).symm
  | cons m marks ih =>
      obtain ⟨result, mark⟩ := m
      cases result with
      | error e =>
          rw [List.cons_append, Follows, Follows, ih, lost_cons, Nat.add_assoc]
          rfl
      | ok e =>
          have htold : told ((.ok e, mark) :: marks) = [e] ++ told marks := rfl
          rw [List.cons_append, Follows, Follows, ih, lost_cons, htold, tablesIn_append,
            Nat.add_assoc, Nat.add_assoc, and_assoc]

theorem Follows.bears {n : Nat} {marks : List (Except TableError Event × Bool)} {e : Event}
    {mark : Bool} (h : Follows t l marks) (hn : marks[n]? = some (.ok e, mark)) :
    Bears (t + tablesIn (told (marks.take n))) (l + lost (marks.take n)) e := by
  have hsplit : marks = marks.take n ++ (.ok e, mark) :: marks.drop (n + 1) := by
    obtain ⟨hlt, hget⟩ := List.getElem?_eq_some_iff.1 hn
    rw [← hget, List.getElem_cons_drop, List.take_append_drop]
  rw [hsplit, follows_append] at h
  exact h.2.1

/-- Behind `t` tables told and `l` tables lost. Among data rows the last of them is current. -/
structure Placed (s : ScanState) (t l : Nat) : Prop where
  position : s.position = t + l
  block : s.mode = .data → ∀ h, s.block = some h → t ≠ 0 ∧ h.position + 1 = t + l

theorem Placed.of_mode_ne (hposition : s.position = t + l) (hmode : s.mode ≠ .data) :
    s.Placed t l :=
  ⟨hposition, fun hdata => absurd hdata hmode⟩

/-- What becomes of the numbers on one row. -/
structure Counted (s' : ScanState) (t l : Nat) (out : List (Except TableError Event))
    (mark : Bool) : Prop where
  follows : Follows t l (out.map (·, mark))
  placed : s'.Placed (t + tablesIn (told (out.map (·, mark)))) (l + lost (out.map (·, mark)))

/-- Nothing or a fault leaves the numbers as they are, as long as the row loses no table. -/
theorem Placed.quiet {row : Csv.Row} (hs : s'.Placed t l)
    (hout : out = [] ∨ ∃ e, out = [.error e]) (hrow : s.loses (.ok row) = false) :
    s'.Counted t l out (s.loses (.ok row)) := by
  rw [hrow]
  rcases hout with rfl | ⟨e, rfl⟩
  · exact ⟨trivial, hs⟩
  · exact ⟨trivial, hs⟩

/-- Only a data row that fits its block can be lost. -/
theorem loses_of_not_fits {row : Csv.Row}
    (hrow : ∀ cells h, s.Fits row "" cells h → s.mode ≠ .data) : s.loses (.ok row) = false := by
  simp only [loses]
  split
  · next cells h heq hblock =>
      by_contra hloses
      simp only [Bool.and_eq_true, decide_eq_true_eq, Bool.not_eq_false] at hloses
      obtain ⟨⟨⟨⟨hmode, hcells⟩, hwidth⟩, -⟩, -⟩ := hloses
      exact hrow cells h ⟨heq, hcells, by rwa [opened_empty], hwidth⟩ hmode
  · rfl

theorem loses_of_fits {row : Csv.Row} {cells : List String} {h : TableHead}
    (fits : s.Fits row "" cells h) (hmode : s.mode = .data) :
    s.loses (.ok row) =
      ((s.reach row false).begins h cells && !(readCells h.columns cells).isOk) := by
  simp [loses, fits.eq_cons, fits.block_eq, hmode, fits.ne_nil, fits.width]

/-- The table that starts is the current one. It may be the one that is told or one that is lost, as
long as some table has been told. -/
theorem placed_startTable (htold : t ≠ 0) (hnext : t + l = s.position + 1)
    (h : TableHead) : (s.startTable h).1.Placed t l := by
  refine ⟨hnext.symm, fun _ k hk => ⟨htold, ?_⟩⟩
  rw [← Option.some.inj hk, hnext]

theorem Placed.turn {row : Csv.Row} (hs : s.Placed t l) (turn : Turn d s row s' out) :
    s'.Counted t l out (s.loses (.ok row)) := by
  have hreach : ∀ blank, (s.reach row blank).Placed t l := fun _ => ⟨hs.position, hs.block⟩
  have hmode_ne : s.mode ≠ .data → s.loses (.ok row) = false := fun hmode =>
    loses_of_not_fits fun _ _ _ => hmode
  have hstarts : t + 1 + l = s.position + 1 := by rw [hs.position, Nat.add_right_comm]
  cases turn with
  | blank hrow =>
      exact (hreach true).quiet (.inl rfl)
        (loses_of_not_fits fun _ _ fits => absurd fits (not_fits_of_blank hrow))
  | single hrow hcell =>
      exact (hreach false).quiet (.inr ⟨_, rfl⟩)
        (loses_of_not_fits fun _ _ fits => absurd fits (not_fits_of_single hrow))
  | homeless hrow hcells hblock =>
      exact (hreach false).quiet (.inr ⟨_, rfl⟩)
        (loses_of_not_fits fun _ _ fits => absurd fits (not_fits_of_homeless hblock))
  | width hrow hcells hblock hwidth =>
      exact (hreach false).quiet (.inr ⟨_, rfl⟩)
        (loses_of_not_fits fun _ _ fits => absurd fits (not_fits_of_width hrow hblock hwidth))
  | @annotates first cells h fits hfirst =>
      obtain ⟨-, hposition, hout⟩ :=
        annotationRow_turn ((s.reach row false).opened first cells) h first cells
      refine Placed.quiet ⟨?_, fun hdata k hk => ?_⟩ hout
        (loses_of_not_fits fun _ _ hfits => absurd hfits (fits.not_fits_empty hfirst))
      · rw [hposition, position_opened, position_reach, hs.position]
      · -- among data rows it was no row of annotations and has been refused
        have hself := annotationRow_of_data hdata
        rw [hself] at hdata hk
        exact hs.block hdata k hk
  | untyped fits hmode htyped =>
      exact (hreach false).quiet (.inr ⟨_, rfl⟩) (hmode_ne (by rw [hmode]; decide))
  | report fits hmode htyped hreport =>
      exact Placed.quiet (Placed.of_mode_ne hs.position nofun) (.inl rfl)
        (hmode_ne (by rw [hmode]; decide))
  | names fits hmode htyped hreport =>
      rw [hmode_ne (by rw [hmode]; decide)]
      refine ⟨⟨hs.position, trivial⟩, placed_startTable t.succ_ne_zero ?_ _⟩
      exact hstarts
  | failure fits hmode =>
      exact (hreach false).quiet (.inr ⟨_, rfl⟩) (hmode_ne (by rw [hmode]; decide))
  | record fits hmode hbegins hread hrecord =>
      have hcurrent := hs.block hmode _ fits.block_eq
      rw [loses_of_fits fits hmode, hbegins, Bool.false_and]
      refine ⟨⟨⟨hcurrent.1, ?_⟩, trivial⟩, hs.position, hs.block⟩
      rw [table_of_readRecord hrecord, hcurrent.2]
  | table fits hmode hbegins hread hrecord =>
      rw [loses_of_fits fits hmode, hread, Bool.not_true, Bool.and_false]
      refine ⟨⟨hs.position, ⟨t.succ_ne_zero, ?_⟩, trivial⟩, placed_startTable t.succ_ne_zero ?_ _⟩
      · rw [table_of_readRecord hrecord]
        exact hstarts.symm
      · exact hstarts
  | malformed fits hmode hbegins hread hrecord =>
      refine Placed.quiet ⟨hs.position, hs.block⟩ (.inr ⟨_, rfl⟩) ?_
      rw [loses_of_fits fits hmode, hbegins, Bool.false_and]
  | lost fits hmode hbegins hread hrecord =>
      -- the number is used up, and some table has been told, since the row stands behind its names
      have hcurrent := hs.block hmode _ fits.block_eq
      rw [loses_of_fits fits hmode, hbegins, hread]
      exact ⟨trivial, placed_startTable hcurrent.1 (congrArg Nat.succ hs.position).symm _⟩

theorem Placed.next (hs : s.Placed t l) (row : Except Csv.RowFault Csv.Row) :
    (s.next d row).1.Counted t l (s.next d row).2 (s.loses row) := by
  cases row with
  | error fault => exact ⟨trivial, hs⟩
  | ok row => exact hs.turn (turn_step d s row)

/-- Whatever the rows are and whatever is wrong with them, all events bear the right numbers. -/
theorem Placed.follows_marked (hs : s.Placed t l)
    (rows : List (Except Csv.RowFault Csv.Row)) : Follows t l (s.marked d rows) := by
  induction rows generalizing s t l with
  | nil => trivial
  | cons row rows ih =>
      obtain ⟨hfollows, hplaced⟩ := hs.next (d := d) row
      exact follows_append.2 ⟨hfollows, ih hplaced⟩

theorem placed_start : ({} : ScanState).Placed 0 0 :=
  ⟨rfl, fun _ _ hblock => by cases hblock⟩

end Numbers

end ScanState

namespace Scan

open ScanState

variable {d : Destinations} {input : Csv.Input} {n : Nat} {e : Event}

/-- How many tables the first results of an input have lost. -/
def tablesLost (d : Destinations) (input : Csv.Input) (n : Nat) : Nat :=
  lost ((({} : ScanState).marked d input.rows).take n)

theorem tablesLost_mono {m : Nat} (h : m ≤ n) : tablesLost d input m ≤ tablesLost d input n :=
  (List.take_prefix_take_left h).sublist.countP_le

/-- What a call returns bears the number that follows from the tables told and lost before. -/
theorem bears_of_call (h : (ofInput d input).call nextEvent n = .ok (some e)) :
    Bears (tablesIn ((ofInput d input).events n)) (tablesLost d input n) e := by
  obtain ⟨hhalted, hget⟩ := of_call_eq_some h
  have hresults : (ofInput d input).results =
      (({} : ScanState).marked d input.rows).map Prod.fst :=
    (map_fst_marked d {} input.rows).symm
  have htold : (ofInput d input).events n =
      told ((({} : ScanState).marked d input.rows).take n) := by
    rw [events_eq hhalted, hresults, ← List.map_take, List.filterMap_map]
    rfl
  rw [hresults, List.getElem?_map] at hget
  obtain ⟨⟨result, mark⟩, hmark, rfl⟩ := Option.map_eq_some_iff.1 hget
  have hbears := (placed_start.follows_marked (d := d) input.rows).bears hmark
  rwa [Nat.zero_add, Nat.zero_add, ← htold] at hbears

/-- An event continues those in front of it if and only if no table has been lost before it. -/
theorem inOrder_events_succ (h : (ofInput d input).call nextEvent n = .ok (some e)) :
    InOrder ((ofInput d input).events (n + 1)) ↔
      InOrder ((ofInput d input).events n) ∧ tablesLost d input n = 0 := by
  have hbears := bears_of_call h
  rw [events_succ_of_some h]
  cases e with
  | table head =>
      rw [inOrder_append_table, hbears]
      exact and_congr_right fun _ => Nat.add_eq_left
  | record r =>
      rw [inOrder_append_record, hbears.2]
      exact and_congr_right fun _ => Nat.add_eq_left

theorem inOrder_events (h : tablesLost d input n = 0) : InOrder ((ofInput d input).events n) := by
  induction n with
  | zero => exact ⟨rfl, trivial⟩
  | succ n ih =>
      have hfront : tablesLost d input n = 0 :=
        Nat.eq_zero_of_le_zero (h ▸ tablesLost_mono n.le_succ)
      cases hcall : ((ofInput d input).call nextEvent n).toOption.join with
      | none => simpa [events_succ, hcall] using ih hfront
      | some e =>
          have hevent := join_toOption_eq_some_iff.1 hcall
          exact (inOrder_events_succ hevent).2 ⟨ih hfront, hfront⟩

/-- Reading event by event and going on behind faults. The number of a table is the number of the
tables told before, and there always is one in front of a record, which bears the number of the last
of them; both are ahead by the tables that were lost in between, each of them with a first row that
cannot be read. So an event and all in front of it are in order if and only if no table has been
lost before. -/
theorem events_in_order_iff (d : Destinations) (input : Csv.Input) :
    let s := ofInput d input
    (∀ n h, s.call nextEvent n = .ok (some (.table h)) →
      h.position = tablesIn (s.events n) + tablesLost d input n) ∧
    (∀ n r, s.call nextEvent n = .ok (some (.record r)) →
      tablesIn (s.events n) ≠ 0 ∧
        r.table + 1 = tablesIn (s.events n) + tablesLost d input n) ∧
    ∀ n e, s.call nextEvent n = .ok (some e) →
      (InOrder (s.events (n + 1)) ↔ tablesLost d input n = 0) :=
  ⟨fun _ _ h => bears_of_call h, fun _ _ h => bears_of_call h, fun _ _ h =>
    (inOrder_events_succ h).trans ⟨fun hboth => hboth.2, fun hlost => ⟨inOrder_events hlost, hlost⟩⟩⟩

/-- A response with two columns and these rows, each of which is a cell of the column `table` and a
number. -/
def numberTable (rows : List String) : Csv.Input :=
  { bytes := (["#datatype,string,long,long", "#group,false,false,false", "#default,_result,,",
      ",result,table,_value"] ++ rows).flatMap fun row => Text.utf8Bytes row ++ [Csv.lineFeed] }

/-- The second row of a table cannot be read, and the table behind it is told. -/
theorem events_in_order_iff_of_second_row :
    let s := ofInput {} (numberTable [",,0,1", ",,0,x", ",,1,2"])
    s.call nextEvent 2 = .error (.malformedCell "_value" "x" (.integer .invalidDigit)) ∧
      InOrder (s.events 5) ∧ positions (s.events 5) = [0, 1] := by
  intro s
  have hcall : (s.call nextEvent 4).toOption.join.isSome = true := by decide +kernel
  obtain ⟨e, he⟩ := Option.isSome_iff_exists.1 hcall
  have hlost : tablesLost {} (numberTable [",,0,1", ",,0,x", ",,1,2"]) 4 = 0 := by decide +kernel
  have horder := ((events_in_order_iff {} _).2.2 4 e (join_toOption_eq_some_iff.1 he)).2 hlost
  exact ⟨by decide +kernel, horder, by decide +kernel⟩

/-- The first row of a table cannot be read. The next row is a record of that table, of which the
reader has not been told, and then the numbers of the tables told have a gap. -/
theorem table_lost_behind_fault :
    let s := ofInput {} (numberTable [",,0,1", ",,1,x", ",,1,2", ",,2,3"])
    s.call nextEvent 2 = .error (.malformedCell "_value" "x" (.integer .invalidDigit)) ∧
      ¬InOrder (s.events 4) ∧ positions (s.events 6) = [0, 2] := by
  decide +kernel

end Scan
end TimeSeries
