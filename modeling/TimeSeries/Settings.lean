import TimeSeries.Flux.Duration
import TimeSeries.Json.Decode
import TimeSeries.Json.Quote
import TimeSeries.Write.Options

/-!
# Settings as JSON

Options, names and durations are read from JSON texts. Options go through the same drafts and the
same checks as options that are put together in a program, so defaults and faults are the same. The
checks come before the end of the text is looked at.
-/

namespace TimeSeries

/-- Why settings cannot be read. -/
inductive SettingsFault where
  /-- The text is not the JSON of such settings. -/
  | malformed
  | invalid (fault : ConfigError)
deriving DecidableEq, Repr

/-- The settings in a text, by the way their JSON value is decoded and checked. -/
def readSettings {α : Type} (decode : Json → Except SettingsFault α) (s : String) :
    Except SettingsFault α :=
  match Json.read s with
  | none => .error .malformed
  | some (j, ends) =>
    match decode j with
    | .error e => .error e
    | .ok a => if ends then .ok a else .error .malformed

/-- What is there, or the fault that the text is malformed. -/
def orMalformed {α : Type} (o : Option α) : Except SettingsFault α :=
  match o with
  | some a => .ok a
  | none => .error .malformed

namespace WriteDraft

def ofJson? (j : Json) : Option WriteDraft := do
  let d : WriteDraft := {}
  match ← j.members? ["database", "retention_policy", "consistency", "precision"] with
  | [database, policy, consistency, precision] =>
    return {
      database := ← Json.member? Json.text? d.database database
      retentionPolicy := ← Json.member? (Json.optional? Json.text?) d.retentionPolicy policy
      consistency := ← Json.member? (Json.choice? Consistency.ofName?) d.consistency consistency
      precision := ← Json.member? (Json.choice? Precision.ofName?) d.precision precision }
  | _ => none

end WriteDraft

def WriteOptions.read : String → Except SettingsFault WriteOptions :=
  readSettings fun j => do
    match (← orMalformed (WriteDraft.ofJson? j)).check with
    | .ok o => .ok o
    | .error e => .error (.invalid e)

namespace BatchDraft

def ofJson? (j : Json) : Option BatchDraft := do
  let d : BatchDraft := {}
  let size := Json.member? (Json.nat? (Nat.pow 2 64))
  match ← j.members? ["batch_size", "flush_interval_ms", "jitter_interval_ms", "retry_buffer_limit",
    "queue_capacity", "max_retries"] with
  | [batchSize, flushInterval, jitter, retryLimit, queueCapacity, maxRetries] =>
    let retries ← Json.member? (Json.nat? (Nat.pow 2 32)) d.maxRetries.toNat maxRetries
    return {
      batchSize := ← size d.batchSize batchSize
      flushInterval := ← size d.flushInterval flushInterval
      jitter := ← size d.jitter jitter
      retryLimit := ← size d.retryLimit retryLimit
      queueCapacity := ← size d.queueCapacity queueCapacity
      maxRetries := UInt32.ofNat retries }
  | _ => none

end BatchDraft

def BatchOptions.read : String → Except SettingsFault BatchOptions :=
  readSettings fun j => do
    match (← orMalformed (BatchDraft.ofJson? j)).check with
    | .ok o => .ok o
    | .error e => .error (.invalid e)

def readChoice {α : Type} (ofName : String → Option α) : String → Except SettingsFault α :=
  readSettings fun j => orMalformed (j.choice? ofName)

def Flux.TimeUnit.ofName? (s : String) : Option Flux.TimeUnit :=
  Flux.TimeUnit.all.find? fun u => u.name = s

namespace Flux.Duration

def ofJson? (j : Json) : Option Duration := do
  match ← j.members? ["amount", "unit"] with
  | [some amount, some unit] =>
    let amount ← amount.integer? Int64.minValue.toInt (Int64.maxValue.toInt + 1)
    return ⟨Int64.ofInt amount, ← unit.choice? TimeUnit.ofName?⟩
  | _ => none

def read : String → Except SettingsFault Duration :=
  readSettings fun j => orMalformed (ofJson? j)

def json (d : Duration) : String :=
  "\x7b\"amount\":" ++ toString d.amount.toInt ++ ",\"unit\":" ++ Json.quote d.unit.name ++ "\x7d"

end Flux.Duration

end TimeSeries
