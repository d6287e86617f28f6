import TimeSeries.ConfigError
import TimeSeries.Flux.Property
import TimeSeries.Point.Error
import TimeSeries.Table.Error

/-!
# Faults of the library

`Error` brings together what can go wrong in the parts of the library and what only arises where
they meet: in the pipeline and in the exchange with a server.
-/

namespace TimeSeries

/-- What went wrong. -/
inductive Error where
  | config (fault : ConfigError)
  /-- A point or a record is refused. -/
  | point (fault : PointError)
  | flux (fault : Flux.Error)
  | table (fault : TableError)
  /-- A request failed; there is no status when no answer arrived. -/
  | transport (status : Option Nat) (message : String)
  | partialWrite (rejected : Nat) (message : String)
  | closed
  /-- The network failed in the midst of an exchange. -/
  | http (message : String)
  | io (message : String)

namespace Error

def message : Error → String
  | .config fault => fault.message
  | .point fault => fault.message
  | .flux fault => fault.message
  | .table fault => fault.message
  | .transport status m =>
    "Transport failure (status " ++
      (match status with
        | some n => "Some(" ++ toString n ++ ")"
        | none => "None") ++ "): " ++ m
  | .partialWrite rejected m =>
    "Partial write, " ++ toString rejected ++ " line(s) rejected: " ++ m
  | .closed => "Write pipeline is closed"
  | .http m => "HTTP request failed: " ++ m
  | .io m => "I/O error: " ++ m

end Error

end TimeSeries
