import TimeSeries.Table.Scan

/-!
# Decoding a whole response

The events of a response up to its first fault are gathered into tables: every table is followed by
its records. When there is a fault, the tables in front of it are kept.
-/

namespace TimeSeries

/-- What a response holds up to its first fault. -/
structure Decoded where
  /-- The tables; behind a fault the last one may miss records. -/
  tables : List Table
  failure : Option TableError
deriving DecidableEq

/-- The records in front of the first table, and the tables with the records behind them. -/
def gather : List Event → List Record × List Table
  | [] => ([], [])
  | .record r :: rest =>
    let g := gather rest
    (r :: g.1, g.2)
  | .table h :: rest =>
    let g := gather rest
    ([], ⟨h, g.1⟩ :: g.2)

namespace Scan

/-- The events in front of the first fault, and that fault. -/
def untilFault (ending : Option TableError) :
    List (Except TableError Event) → List Event × Option TableError
  | [] => ([], ending)
  | .error e :: _ => ([], some e)
  | .ok e :: rest =>
    let r := untilFault ending rest
    (e :: r.1, r.2)

def decode (s : Scan) : Decoded :=
  let (events, fault) := untilFault s.ending s.results
  match gather events with
  | ([], tables) => ⟨tables, fault⟩
  | (_ :: _, _) => ⟨[], some .noTable⟩

end Scan

/-- The tables of an input, with the named destinations. -/
def decodeTables (destinations : List String) (input : Csv.Input) : Decoded :=
  (Scan.ofInput (Destinations.ofList destinations) input).decode

end TimeSeries
