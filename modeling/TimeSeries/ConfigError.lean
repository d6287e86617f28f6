/-!
# Faults of a configuration

The settings of the library are checked once, when they are built or read. `ConfigError` lists what
can be wrong with them.
-/

namespace TimeSeries

/-- What is wrong with a setting. -/
inductive ConfigError where
  | unknownPrecision (name : String)
  /-- Written batches have no database to go to. -/
  | emptyDatabase
  | zeroBatchSize
  /-- The time between two flushes would be zero. -/
  | zeroFlushInterval
  /-- The queue would not hold one batch. -/
  | smallQueue (capacity batchSize : Nat)
  /-- The text is not an address, for the given reason. -/
  | invalidUrl (url reason : String)
  /-- A fault that is stated by its wording only. -/
  | stated (reason : String)
deriving DecidableEq, Repr

def ConfigError.reason : ConfigError → String
  | .unknownPrecision name => "unknown precision '" ++ name ++ "'"
  | .emptyDatabase => "database must not be empty"
  | .zeroBatchSize => "batch_size must be positive"
  | .zeroFlushInterval => "flush_interval must be positive"
  | .smallQueue capacity batchSize =>
    "queue_capacity " ++ toString capacity ++ " is smaller than batch_size " ++ toString batchSize
  | .invalidUrl url reason => "invalid URL '" ++ url ++ "': " ++ reason
  | .stated reason => reason

def ConfigError.message (e : ConfigError) : String := "Invalid configuration: " ++ e.reason

end TimeSeries
