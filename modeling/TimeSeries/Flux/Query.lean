import TimeSeries.Flux.Operator
import TimeSeries.Flux.Setting

/-!
# Queries

A query is a list of settings followed by a chain of operators and raw expressions, each of which
works on what the one before it produced. Settings are separated by blank lines and the links of the
chain by pipes.
-/

namespace TimeSeries.Flux

/-- A link of the chain. -/
inductive Segment where
  | call (o : Operator)
  | raw (s : String)
deriving DecidableEq

def Segment.draft (params : Parameters) : Segment → Draft
  | .call o => o.draft params
  | .raw s => Draft.ofText s

/-- A query. -/
structure Query where
  settings : List Setting := []
  segments : List Segment := []
deriving DecidableEq

/-- What stands between two links of a chain. -/
def pipe : String := "\n\t|> "

/-- What stands between two settings, and between the settings and the chain. -/
def gap : String := "\n\n"

namespace Query

def setting (q : Query) (s : Setting) : Query := { q with settings := q.settings ++ [s] }

def call (q : Query) (o : Operator) : Query := { q with segments := q.segments ++ [.call o] }

def expression (q : Query) (s : String) : Query := { q with segments := q.segments ++ [.raw s] }

/-- The query with one more operator, given by its properties. -/
def operator (q : Query) (name : String) (properties : List (String × Property)) : Query :=
  q.call (Operator.ofProperties name properties)

def fromBucket (bucket : Property) : Query := ({} : Query).operator "from" [("bucket", bucket)]

def range (q : Query) (start : Property) : Query := q.operator "range" [("start", start)]

def rangeBetween (q : Query) (start stop : Property) : Query :=
  q.operator "range" [("start", start), ("stop", stop)]

def filter (q : Query) (r : Restriction) : Query :=
  q.operator "filter" [("fn", Property.restriction r)]

def limit (q : Query) (n : Property) : Query := q.operator "limit" [("n", n)]

/-- The first rows of each table behind a number of rows. -/
def limitOffset (q : Query) (n offset : Property) : Query :=
  q.operator "limit" [("n", n), ("offset", offset)]

/-- The property of a list of column names. -/
def columns (l : List String) : Property := .literal (Literal.strings l)

def string (s : String) : Property := .literal (.value (.string s))

def sort (q : Query) (l : List String) (descending : Bool) : Query :=
  q.operator "sort" [("columns", columns l), ("desc", .literal (.value (.bool descending)))]

def group (q : Query) (l : List String) : Query := q.operator "group" [("columns", columns l)]

/-- Tables by the values of columns in a mode. -/
def groupMode (q : Query) (l : List String) (mode : String) : Query :=
  q.operator "group" [("columns", columns l), ("mode", string mode)]

def window (q : Query) (every : Property) : Query := q.operator "window" [("every", every)]

/-- A function of the rows of each window of time. -/
def aggregateWindow (q : Query) (every : Property) (function : String) : Query :=
  q.operator "aggregateWindow" [("every", every), ("fn", .expression function)]

def plain (q : Query) (name : String) : Query := q.operator name []

def drop (q : Query) (l : List String) : Query := q.operator "drop" [("columns", columns l)]

def keep (q : Query) (l : List String) : Query := q.operator "keep" [("columns", columns l)]

def rename (q : Query) (l : List (String × String)) : Query :=
  q.operator "rename"
    [("columns", .literal (.record (KeyMap.ofList (l.map fun e => (e.1, Value.string e.2)))))]

/-- Values of a column as columns of their own. -/
def pivot (q : Query) (rowKey columnKey : List String) (valueColumn : String) : Query :=
  q.operator "pivot" [("rowKey", columns rowKey), ("columnKey", columns columnKey),
    ("valueColumn", string valueColumn)]

def distinct (q : Query) (column : String) : Query :=
  q.operator "distinct" [("column", string column)]

def yield (q : Query) (name : Property) : Query := q.operator "yield" [("name", name)]

/-- The settings and the chain of a query. -/
def draft (params : Parameters) (q : Query) : Draft :=
  Draft.joinWith gap
    ((if q.settings.isEmpty then [] else
        [Draft.joinWith gap (q.settings.map (Setting.draft params))]) ++
      (if q.segments.isEmpty then [] else
        [Draft.joinWith pipe (q.segments.map (Segment.draft params))]))

def printWith (q : Query) (params : Parameters) : Except Error String := (q.draft params).result

def print (q : Query) : Except Error String := q.printWith KeyMap.empty

end Query

end TimeSeries.Flux
