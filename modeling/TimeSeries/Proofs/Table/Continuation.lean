import TimeSeries.Proofs.Csv.Continuation
import TimeSeries.Proofs.Table.Decoding

/-!
# A response that goes on

What has been decoded does not change when a response goes on: no row is decided on later ones, so
the tables in front stay what they are, and only the last one can get further records. That holds
whatever comes behind, a fault or the report of a failed query too, as long as the bytes in front
end with a row. `decoded_tables_stay` puts two facts together: the rows of the bytes in front are
the first rows of the whole, and the events of rows come before those of later rows.
-/

namespace TimeSeries

/-- The tables begin `more`, except that the last of them may have further records there. -/
inductive Continued : List Table → List Table → Prop where
  | empty (more : List Table) : Continued [] more
  | last (front : List Table) (t : Table) (records : List Record) (later : List Table) :
    Continued (front ++ [t]) (front ++ ⟨t.head, t.records ++ records⟩ :: later)

theorem Continued.cons {tables more : List Table} (h : Continued tables more) (hne : tables ≠ [])
    (t : Table) : Continued (t :: tables) (t :: more) := by
  cases h with
  | empty => exact absurd rfl hne
  | last front => exact .last (t :: front) _ _ _

theorem gather_append_of_no_table {events : List Event} (h : (gather events).2 = [])
    (more : List Event) :
    gather (events ++ more) = ((gather events).1 ++ (gather more).1, (gather more).2) := by
  induction events with
  | nil => rfl
  | cons e events ih =>
      cases e with
      | table head => cases h
      | record r => rw [List.cons_append, gather, ih h, gather, List.cons_append]

theorem gather_append_of_table {events : List Event} (h : (gather events).2 ≠ [])
    (more : List Event) : (gather (events ++ more)).1 = (gather events).1 := by
  induction events with
  | nil => exact absurd rfl h
  | cons e events ih =>
      cases e with
      | table head => rfl
      | record r => exact congrArg (r :: ·) (ih h)

/-- Whatever events come behind some others, the tables of these go on at their end only. -/
theorem continued_gather (events more : List Event) :
    Continued (gather events).2 (gather (events ++ more)).2 := by
  induction events with
  | nil => exact .empty _
  | cons e events ih =>
      cases e with
      | record r => exact ih
      | table head =>
          rw [List.cons_append, gather, gather]
          by_cases hnone : (gather events).2 = []
          · rw [hnone, gather_append_of_no_table hnone]
            exact .last [] ⟨head, _⟩ _ _
          · rw [gather_append_of_table hnone]
            exact ih.cons hnone _

open ScanState

theorem continued_decodeRows {destinations : List String}
    {rows : List (Except Csv.RowFault Csv.Row)}
    (h : (decodeRows destinations rows).failure = none)
    (more : List (Except Csv.RowFault Csv.Row)) :
    Continued (decodeRows destinations rows).tables
      (decodeRows destinations (rows ++ more)).tables := by
  obtain ⟨⟨events, hevents⟩, hmode⟩ := faultless_of_decodeRows h
  rw [decodeRows_of_run hevents hmode, decodeRows_append hevents]
  exact continued_gather events _

/-- A response that ends with a row and is decoded without a fault, and any bytes behind it, however
the input ends there. The tables of the whole, with or without a fault, begin with those of the
response. The last of these may have further records, and nothing else about them is different. -/
theorem decoded_tables_stay {destinations : List String} {bytes : List UInt8}
    {firstRead : Option Nat}
    (hends : Csv.EndsWithRow (Csv.Input.content ⟨bytes, firstRead, .complete⟩))
    (hclean : (decodeTables destinations ⟨bytes, firstRead, .complete⟩).failure = none)
    (more : List UInt8) (ending : Csv.Ending) :
    Continued (decodeTables destinations ⟨bytes, firstRead, .complete⟩).tables
      (decodeTables destinations ⟨bytes ++ more, firstRead, ending⟩).tables := by
  obtain ⟨later, hrows⟩ := Csv.Input.exists_rows_append hends more ending
  rw [decodeTables_eq_decodeRows, decodeTables_eq_decodeRows, hrows]
  exact continued_decodeRows hclean later

/-- A row with a line feed in quotes. Behind it the table goes on, the next one begins, and then a
row is too short. -/
theorem decoded_tables_stay_of_short_row :
    let bytes := Text.utf8Bytes
      "#datatype,string,long,string\n#group,false,false,false\n,result,table,_value\n,,0,\"a\nb\"\n"
    let more := Text.utf8Bytes ",,0,c\n,,1,d\n,,1\n"
    Csv.EndsWithRow (Csv.Input.content ⟨bytes, none, .complete⟩) ∧
      (decodeTables [] ⟨bytes, none, .complete⟩).failure = none ∧
      Continued (decodeTables [] ⟨bytes, none, .complete⟩).tables
        (decodeTables [] ⟨bytes ++ more, none, .complete⟩).tables ∧
      (decodeTables [] ⟨bytes ++ more, none, .complete⟩).failure = some (.width 3 2) := by
  intro bytes more
  have hends : Csv.EndsWithRow (Csv.Input.content ⟨bytes, none, .complete⟩) :=
    ⟨bytes.dropLast, by decide +kernel, by decide +kernel⟩
  have hclean : (decodeTables [] ⟨bytes, none, .complete⟩).failure = none := by decide +kernel
  exact ⟨hends, hclean, decoded_tables_stay hends hclean more .complete, by decide +kernel⟩

end TimeSeries
