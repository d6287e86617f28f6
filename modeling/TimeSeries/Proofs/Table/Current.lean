import TimeSeries.Proofs.Table.Faultless

/-!
# The columns of the current table

Behind the annotations of a block its columns stay as they are, in the block and in every table that
starts there. So among data rows the block is the head of the table that started last: what a
decoder has handed out tells how the next row will be read. `Current` says this of a state, together
with a fact about defaults: they were read as cells, so they have no white space at their ends.
-/

namespace TimeSeries

/-- The head of the last table among events, behind a head that was there before. -/
def latest (head : Option TableHead) : List Event → Option TableHead
  | [] => head
  | .table h :: rest => latest (some h) rest
  | .record _ :: rest => latest head rest

theorem latest_append (head : Option TableHead) (events more : List Event) :
    latest head (events ++ more) = latest (latest head events) more := by
  induction events generalizing head with
  | nil => rfl
  | cons e events ih =>
      cases e with
      | table h => exact ih (some h)
      | record _ => exact ih head

theorem latest_eq_getLast? (head : Option TableHead) (events : List Event) :
    latest head events = ((gather events).2.getLast?.map Table.head).or head := by
  induction events generalizing head with
  | nil => rfl
  | cons e events ih =>
      cases e with
      | record _ => exact ih head
      | table h =>
          rw [latest, ih, gather, List.getLast?_cons]
          cases (gather events).2.getLast? <;> rfl

/-- All columns have defaults without white space at their ends. -/
def TrimmedDefaults (columns : List Column) : Prop := ∀ c ∈ columns, Text.trim c.default = c.default

theorem trimmedDefaults_blank (position width : Nat) :
    TrimmedDefaults (TableHead.blank position width).columns := by
  intro c hc
  obtain ⟨i, -, rfl⟩ := List.mem_map.1 hc
  rfl

theorem TrimmedDefaults.setTypes {columns : List Column} (h : TrimmedDefaults columns)
    (cells : List String) : TrimmedDefaults (setTypes columns cells).1 := by
  induction columns generalizing cells with
  | nil => cases cells <;> exact h
  | cons c columns ih =>
      obtain ⟨hc, hrest⟩ := List.forall_mem_cons.1 h
      cases cells with
      | nil => exact h
      | cons cell cells =>
          rw [TimeSeries.setTypes]
          split
          · exact List.forall_mem_cons.2 ⟨hc, ih hrest cells⟩
          · exact h

theorem TrimmedDefaults.setEach {f : Column → String → Column} {columns : List Column}
    (h : TrimmedDefaults columns) {cells : List String}
    (hf : ∀ c cell, Text.trim c.default = c.default → cell ∈ cells →
      Text.trim (f c cell).default = (f c cell).default) :
    TrimmedDefaults (setEach f columns cells) := by
  induction columns generalizing cells with
  | nil => cases cells <;> exact h
  | cons c columns ih =>
      obtain ⟨hc, hrest⟩ := List.forall_mem_cons.1 h
      cases cells with
      | nil => exact h
      | cons cell cells =>
          exact List.forall_mem_cons.2 ⟨hf c cell hc List.mem_cons_self,
            ih hrest fun c' cell' hc' hcell' => hf c' cell' hc' (List.mem_cons_of_mem cell hcell')⟩

namespace ScanState

variable {d : Destinations} {s : ScanState} {head : Option TableHead}

/-- Among data rows the block is this table. -/
structure Current (s : ScanState) (head : Option TableHead) : Prop where
  block : s.mode = .data → s.block = head
  defaults : ∀ h, s.block = some h → TrimmedDefaults h.columns

theorem current_start : ({} : ScanState).Current none :=
  ⟨fun _ => rfl, fun _ hblock => by cases hblock⟩

theorem mode_opened_ne_data {first : String} (hfirst : first.toList.head? = some '#')
    (s : ScanState) (cells : List String) : (s.opened first cells).mode ≠ .data := by
  by_cases hfailed : (s.opened first cells).mode = .failed
  · rw [hfailed]
    decide
  · rw [mode_opened hfirst hfailed]
    decide

/-- Among annotations only the defaults matter. -/
theorem current_of_mode_ne {columns : List Column} {position : Nat} (hmode : s.mode ≠ .data)
    (hblock : s.block = some ⟨position, columns⟩) (hcolumns : TrimmedDefaults columns) :
    s.Current head where
  block hdata := absurd hdata hmode
  defaults h hh := by
    obtain rfl := Option.some.inj (hblock.symm.trans hh)
    exact hcolumns

theorem Current.trimmedDefaults_opened (hs : s.Current head) {first : String} {cells : List String}
    {h : TableHead} (hblock : (s.opened first cells).block = some h) :
    TrimmedDefaults h.columns := by
  rw [opened] at hblock
  split at hblock
  · obtain rfl := Option.some.inj hblock
    exact trimmedDefaults_blank _ _
  · exact hs.defaults h hblock

/-- A row of annotations leaves no data rows behind, so any table may be the current one. -/
theorem Current.annotationRow (hs : s.Current head) {h : TableHead} {first : String}
    {cells : List String} (hblock : (s.opened first cells).block = some h)
    (hcells : ∀ cell ∈ cells, Text.trim cell = cell)
    (hclean : Clean ((s.opened first cells).annotationRow h first cells).2)
    (later : Option TableHead) :
    ((s.opened first cells).annotationRow h first cells).1.Current later := by
  have hdefaults := hs.trimmedDefaults_opened hblock
  rw [ScanState.annotationRow] at hclean ⊢
  split
  · next hfirst =>
      subst hfirst
      exact current_of_mode_ne (mode_opened_ne_data rfl s cells) rfl (hdefaults.setTypes cells)
  · split
    · next hfirst =>
        subst hfirst
        refine current_of_mode_ne (mode_opened_ne_data rfl s cells) rfl ?_
        exact hdefaults.setEach fun _ _ hc _ => hc
    · split
      · next hfirst =>
          subst hfirst
          refine current_of_mode_ne (mode_opened_ne_data rfl s cells) rfl ?_
          exact hdefaults.setEach fun _ cell _ hcell => hcells cell hcell
      · next hdatatype hgroup hdefault =>
          rw [if_neg hdatatype, if_neg hgroup, if_neg hdefault] at hclean
          exact absurd hclean (not_clean_error _)

theorem Current.nameRow (hs : s.Current head) {h : TableHead} {cells : List String}
    (hblock : s.block = some h) {events : List Event}
    (hevents : (s.nameRow d h cells).2 = events.map .ok) :
    (s.nameRow d h cells).1.Current (latest head events) := by
  have hdefaults := hs.defaults h hblock
  rw [ScanState.nameRow] at hevents ⊢
  split
  · next htyped =>
      rw [if_pos htyped] at hevents
      exact absurd ⟨events, hevents⟩ (not_clean_error _)
  · next htyped =>
      rw [if_neg htyped] at hevents
      split
      · refine current_of_mode_ne (fun hdata => ?_) hblock hdefaults
        cases hdata
      · next herror =>
          rw [if_neg herror] at hevents
          have hout : [Event.table _] = events := eq_of_map_ok hevents
          subst hout
          refine ⟨fun _ => rfl, fun k hk => ?_⟩
          obtain rfl := Option.some.inj hk
          exact hdefaults.setEach fun _ _ hc _ => hc

theorem Current.dataRow (hs : s.Current head) {h : TableHead} {cells : List String}
    (hblock : s.block = some h) (hmode : s.mode = .data)
    {events : List Event} (hevents : (s.dataRow d h cells).2 = events.map .ok) :
    (s.dataRow d h cells).1.Current (latest head events) := by
  have hdefaults := hs.defaults h hblock
  rw [dataRow_eq_brings d s rfl] at hevents ⊢
  simp only at hevents ⊢
  split
  · next hstarts =>
      rw [if_pos hstarts] at hevents
      obtain ⟨r, hout⟩ := brings_of_clean ⟨events, hevents⟩
      rw [hout] at hevents ⊢
      obtain rfl := eq_of_map_ok hevents
      refine ⟨fun _ => rfl, fun k hk => ?_⟩
      obtain rfl := Option.some.inj hk
      exact hdefaults
  · next hstays =>
      rw [if_neg hstays] at hevents
      obtain ⟨r, hout⟩ := brings_of_clean ⟨events, hevents⟩
      rw [hout] at hevents ⊢
      obtain rfl := eq_of_map_ok hevents
      exact ⟨fun _ => hs.block hmode, hs.defaults⟩

theorem Current.blockRow (hs : s.Current head) {first : String} {cells : List String}
    (hcells : ∀ cell ∈ cells, Text.trim cell = cell) {events : List Event}
    (hevents : (s.blockRow d first cells).2 = events.map .ok) :
    (s.blockRow d first cells).1.Current (latest head events) := by
  obtain ⟨h, hblock, -, hrow⟩ := blockRow_of_clean ⟨events, hevents⟩
  rcases hrow with ⟨rfl, -, hrow⟩ | ⟨rfl, hmode, hrow⟩ | ⟨-, hrow⟩ <;> rw [hrow] at hevents ⊢
  · exact hs.nameRow (opened_empty s cells ▸ hblock) hevents
  · exact hs.dataRow (opened_empty s cells ▸ hblock) hmode hevents
  · exact hs.annotationRow hblock hcells ⟨events, hevents⟩ _

theorem Current.reach (hs : s.Current head) (row : Csv.Row) (blank : Bool) :
    (s.reach row blank).Current head :=
  ⟨hs.block, hs.defaults⟩

theorem Current.step (hs : s.Current head) {row : Csv.Row}
    (hcells : ∀ cell ∈ row.cells, Text.trim cell = cell) {events : List Event}
    (hevents : (s.step d row).2 = events.map .ok) :
    (s.step d row).1.Current (latest head events) := by
  rcases step_of_clean ⟨events, hevents⟩ with hrow | ⟨first, cells, hcons, hrow⟩
  · rw [hrow] at hevents ⊢
    obtain rfl : events = [] := List.map_eq_nil_iff.1 hevents.symm
    exact hs.reach row true
  · rw [hrow] at hevents ⊢
    refine (hs.reach row false).blockRow (fun cell hcell => hcells cell ?_) hevents
    rw [hcons]
    exact List.mem_cons_of_mem first hcell

/-- Rows that bring no fault lead from one current table to the next. -/
theorem Current.run (hs : s.Current head) {rows : List Csv.Row}
    (hrows : ∀ row ∈ rows, ∀ cell ∈ row.cells, Text.trim cell = cell) {events : List Event}
    (hevents : (s.run d (rows.map .ok)).2 = events.map .ok) :
    (s.run d (rows.map .ok)).1.Current (latest head events) := by
  induction rows generalizing s head events with
  | nil =>
      obtain rfl : events = [] := List.map_eq_nil_iff.1 hevents.symm
      exact hs
  | cons row rows ih =>
      obtain ⟨front, back, rfl, hfront, hback⟩ := List.map_eq_append_iff.1 hevents.symm
      rw [latest_append]
      exact ih (hs.step (hrows row List.mem_cons_self) hfront.symm)
        (fun r hr => hrows r (List.mem_cons_of_mem row hr)) hback.symm

end ScanState
end TimeSeries
