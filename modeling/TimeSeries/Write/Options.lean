import TimeSeries.Point.Precision

/-!
# Options of writing

`WriteOptions` say where batches go and how they are encoded. `BatchOptions` say when batches are
formed and how often a record is sent again. Both are drafted with defaults and checked once; what
was checked stays part of the type.
-/

namespace TimeSeries

/-- How many nodes of a cluster have to confirm a batch. -/
inductive Consistency where
  /-- Any node, even one that only keeps a hint. -/
  | any
  | one
  /-- A quorum of nodes. -/
  | quorum
  | all
deriving DecidableEq, Repr

namespace Consistency

/-- The name in the address of a write request. -/
def name : Consistency → String
  | .any => "any"
  | .one => "one"
  | .quorum => "quorum"
  | .all => "all"

def ofName? : String → Option Consistency
  | "any" => some .any
  | "one" => some .one
  | "quorum" => some .quorum
  | "all" => some .all
  | _ => none

end Consistency

/-- Options of writing that were not checked. -/
structure WriteDraft where
  database : String := ""
  /-- The retention policy; empty for the one of the server. -/
  retentionPolicy : Option String := none
  consistency : Consistency := .one
  precision : Precision := .nanoseconds
deriving DecidableEq, Repr

/-- Where batches go and how they are encoded. -/
structure WriteOptions where
  database : String
  /-- The retention policy, if it is not the one of the server. -/
  retentionPolicy : Option String
  consistency : Consistency
  precision : Precision
  database_ne : ¬database = ""
  retentionPolicy_ne : retentionPolicy ≠ some ""
deriving DecidableEq, Repr

def WriteDraft.check (d : WriteDraft) : Except ConfigError WriteOptions :=
  if h : d.database = "" then .error .emptyDatabase
  else
    .ok
      { database := d.database
        retentionPolicy := d.retentionPolicy.filter fun name => decide (name ≠ "")
        consistency := d.consistency
        precision := d.precision
        database_ne := h
        retentionPolicy_ne := by simp [Option.filter_eq_some_iff] }

/-- Options of batching that were not checked. Intervals are whole milliseconds. -/
structure BatchDraft where
  /-- The number of records that makes a batch. -/
  batchSize : Nat := 1000
  /-- The longest time between two batches. -/
  flushInterval : Nat := 1000
  /-- The largest random addition to that time. -/
  jitter : Nat := 0
  /-- The number of records that can wait for another attempt. -/
  retryLimit : Nat := 10000
  /-- The number of records that can wait for their first attempt. -/
  queueCapacity : Nat := 10000
  /-- The number of attempts after the first one. -/
  maxRetries : UInt32 := 5
deriving DecidableEq, Repr

namespace BatchDraft

def millisOfMicros (micros : Nat) : Nat := micros / 1000

/-- A draft with an interval given in microseconds. -/
def flushEveryMicros (d : BatchDraft) (micros : Nat) : BatchDraft :=
  { d with flushInterval := millisOfMicros micros }

/-- A draft with a random addition given in microseconds. -/
def jitterMicros (d : BatchDraft) (micros : Nat) : BatchDraft :=
  { d with jitter := millisOfMicros micros }

end BatchDraft

/-- When batches are formed and how often a record is sent again. -/
structure BatchOptions where
  /-- The number of records that makes a batch. -/
  batchSize : Nat
  /-- The longest time between two batches in milliseconds. -/
  flushInterval : Nat
  /-- The largest random addition to that time. -/
  jitter : Nat
  /-- The number of records that can wait for another attempt. -/
  retryLimit : Nat
  /-- The number of records that can wait for their first attempt. -/
  queueCapacity : Nat
  /-- The number of attempts after the first one. -/
  maxRetries : UInt32
  batchSize_pos : 0 < batchSize
  /-- Time passes between two batches. -/
  flushInterval_pos : 0 < flushInterval
  /-- The queue can hold a batch. -/
  batchSize_le : batchSize ≤ queueCapacity
deriving DecidableEq, Repr

/-- The checked options, or the first thing that is wrong. -/
def BatchDraft.check (d : BatchDraft) : Except ConfigError BatchOptions :=
  if hb : d.batchSize = 0 then .error .zeroBatchSize
  else if hf : d.flushInterval = 0 then .error .zeroFlushInterval
  else if hq : d.queueCapacity < d.batchSize then
    .error (.smallQueue d.queueCapacity d.batchSize)
  else
    .ok
      ⟨d.batchSize, d.flushInterval, d.jitter, d.retryLimit, d.queueCapacity, d.maxRetries,
        Nat.pos_of_ne_zero hb, Nat.pos_of_ne_zero hf, Nat.le_of_not_lt hq⟩

end TimeSeries
