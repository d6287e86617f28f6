import TimeSeries.Flux.Draft

/-!
# Settings

A setting stands in front of a query and sets a name for all of it: the time that counts as now, the
schedule of a task, or any other name.
-/

namespace TimeSeries.Flux

/-- The schedule of a task; only what is set is written. -/
structure Task where
  name : String
  every : Option Duration := none
  /-- How long after each scheduled time it runs. -/
  delay : Option Duration := none
  /-- A schedule in the manner of cron. -/
  cron : Option String := none
  retry : Option Int64 := none
deriving DecidableEq

def Task.text (t : Task) : String :=
  let entries :=
    [some ("name", Text.quote t.name), t.every.map fun d => ("every", d.text),
      t.delay.map fun d => ("delay", d.text), t.cron.map fun s => ("cron", Text.quote s),
      t.retry.map fun n => ("retry", toString n.toInt)].filterMap id
  "\x7b\n\t" ++ ",\n\t".intercalate (entries.map fun e => e.1 ++ ": " ++ e.2) ++ "\n\x7d"

/-- A declaration in front of a query. -/
inductive Setting where
  | nowIs (v : Value)
  | nowBy (expression : String)
  | task (t : Task)
  /-- A name has the value of a property. -/
  | define (name : String) (value : Property)
deriving DecidableEq

/-- The declaration in the query language. A name without a value is set to `null`. -/
def Setting.draft (params : Parameters) : Setting → Draft
  | .nowIs v => Draft.ofText ("option now = () => " ++ v.literal?.getD "")
  | .nowBy expression => Draft.ofText ("option now = " ++ expression)
  | .task t => Draft.ofText ("option task = " ++ t.text)
  | .define name value =>
    Draft.ofText ("option " ++ name ++ " = ") ++
      match value.text? params with
      | .error e => Draft.stop e
      | .ok t => Draft.ofText (t.getD "null")

end TimeSeries.Flux
