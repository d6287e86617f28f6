import TimeSeries.Flux.Restriction
import TimeSeries.Proofs.Point.LineReader
import TimeSeries.Text.Search

/-!
# Conditions of the query language

A condition is what the text of a predicate says: comparisons of columns with literals, checks that
a column exists and the two truth values, joined by `not`, `and` and `or`. It is read in two stages.
First the text is cut into tokens. A word, a text in quotes and a call of a function are one token
each, and so is a column of the row.

The tokens are then taken from left to right, with an open parenthesis as a `Level` of its own. What
binds tighter is put together earlier: a comparison and `exists` are complete before anything is
done with them, `not` is applied to the operand right behind it, `and` adds a part to the choice
that is being read, and `or` begins the next choice.
-/

namespace TimeSeries.Flux

open Text Wire

inductive Condition where
  | compare (column : String) (op : Comparison) (literal : String)
  | present (column : String)
  | truth (b : Bool)
  | not (c : Condition)
  /-- All of two or more hold. -/
  | all (l : List Condition)
  | any (l : List Condition)

namespace Condition

def conjunction : List Condition → Condition
  | [] => .truth true
  | [c] => c
  | l => .all l

def disjunction : List Condition → Condition
  | [] => .truth false
  | [c] => c
  | l => .any l

/-- A condition with some `not`s in front of it. -/
def negated : Nat → Condition → Condition
  | 0, c => c
  | n + 1, c => negated n (.not c)

end Condition

/-- What is known of rows: which comparisons they satisfy, and which columns they have. -/
structure Interpretation (ρ : Type*) where
  compares : ρ → String → Comparison → String → Bool
  has : ρ → String → Bool

section Truth

variable {ρ : Type*} (i : Interpretation ρ) (row : ρ)

namespace Condition

mutual

def holds : Condition → Bool
  | .compare column op literal => i.compares row column op literal
  | .present column => i.has row column
  | .truth b => b
  | .not c => !c.holds
  | .all l => (truths l).all id
  | .any l => (truths l).any id

def truths : List Condition → List Bool
  | [] => []
  | c :: l => c.holds :: truths l

end

theorem holds_conjunction (l : List Condition) :
    (conjunction l).holds i row = (truths i row l).all id := by
  cases l with
  | nil => simp [conjunction, holds, truths]
  | cons c l => cases l <;> simp [conjunction, holds, truths]

theorem holds_disjunction (l : List Condition) :
    (disjunction l).holds i row = (truths i row l).any id := by
  cases l with
  | nil => simp [disjunction, holds, truths]
  | cons c l => cases l <;> simp [disjunction, holds, truths]

end Condition

end Truth

/-- What a condition is made of. -/
inductive Token where
  | opening
  | closing
  /-- A column of the row. -/
  | column (name : String)
  | sign (op : Comparison)
  /-- A word, a text in quotes or a call of a function, as it is written. -/
  | phrase (text : String)
deriving DecidableEq, Repr

/-- The character belongs to names, numbers, lengths of time and times. -/
def isWordChar (c : Char) : Bool :=
  c.isAlphanum || c == '_' || c == '.' || c == ':' || c == '+' || c == '-'

def isSignChar (c : Char) : Bool := c == '=' || c == '!' || c == '<' || c == '>'

def Comparison.ofSign? (s : String) : Option Comparison :=
  [.equal, .notEqual, .less, .lessOrEqual, .greater, .greaterOrEqual].find? fun op => op.sign = s

/-- The head of a list in front of `rest`. -/
def consumed (l rest : List Char) : String := String.ofList (l.take (l.length - rest.length))

/-- What follows the argument `v` of a call and its parenthesis. -/
def skipArgument : List Char → Option (List Char)
  | 'v' :: ':' :: ' ' :: '"' :: l => (readQuoted l).bind fun r => after? [')'] r.2
  | 'v' :: ':' :: ' ' :: l => after? [')'] (l.dropWhile isWordChar)
  | _ => none

/-- The name of a column in quotes, and what follows its bracket. -/
def readName : List Char → Option (String × List Char)
  | '"' :: l => (readQuoted l).bind fun r => (after? [']'] r.2).map (String.ofList r.1, ·)
  | _ => none

/-- A token that begins with a word: a column, a call, or the word itself. -/
def readWordToken (l : List Char) : Option (Token × List Char) :=
  let word := l.takeWhile isWordChar
  match l.dropWhile isWordChar with
  | '[' :: rest =>
    if word = ['r'] then (readName rest).map fun r => (.column r.1, r.2) else none
  | '(' :: rest => (skipArgument rest).map fun rest => (.phrase (consumed l rest), rest)
  | rest => if word = [] then none else some (.phrase (String.ofList word), rest)

/-- The token at the head of a text, and what follows it. -/
def readToken : List Char → Option (Token × List Char)
  | [] => none
  | '(' :: l => some (.opening, l)
  | ')' :: l => some (.closing, l)
  | '"' :: l => (readQuoted l).map fun r => (.phrase (consumed ('"' :: l) r.2), r.2)
  | c :: l =>
    if isSignChar c then
      (Comparison.ofSign? (String.ofList ((c :: l).takeWhile isSignChar))).map fun op =>
        (.sign op, (c :: l).dropWhile isSignChar)
    else readWordToken (c :: l)

/-- The tokens of a text, with or without spaces between them. -/
def tokens? : List Char → Option (List Token)
  | [] => some []
  | c :: l =>
    if c = ' ' then tokens? l
    else
      (readToken (c :: l)).bind fun r =>
        if _h : r.2.length < (c :: l).length then (tokens? r.2).map (r.1 :: ·) else none
termination_by l => l.length
decreasing_by
  · exact Nat.lt_succ_self _
  · exact _h

/-- What was read between two parentheses. -/
structure Level where
  /-- What stands in front of the last `or`. -/
  choices : List Condition := []
  /-- What was read behind it. -/
  parts : List Condition := []
  /-- The number of `not`s in front of the next operand. -/
  negations : Nat := 0

namespace Level

def add (v : Level) (c : Condition) : Level :=
  { v with parts := v.parts ++ [Condition.negated v.negations c], negations := 0 }

def negate (v : Level) : Level := { v with negations := v.negations + 1 }

/-- The level behind an `or`. -/
def next (v : Level) : Level :=
  { v with choices := v.choices ++ [Condition.conjunction v.parts], parts := [] }

def condition (v : Level) : Condition :=
  Condition.disjunction (v.choices ++ [Condition.conjunction v.parts])

end Level

/-- What has to follow. -/
inductive Awaited where
  | operand
  /-- The column that is to exist. -/
  | column
  | sign (column : String)
  | literal (column : String) (op : Comparison)
  | connective
deriving DecidableEq, Repr

structure ReadState where
  level : Level := {}
  /-- The levels around it, the nearest one first. -/
  outer : List Level := []
  awaited : Awaited := .operand

namespace ReadState

/-- An operand is complete. -/
def take (s : ReadState) (c : Condition) : ReadState :=
  { s with level := s.level.add c, awaited := .connective }

def step (s : ReadState) (t : Token) : Option ReadState :=
  match s.awaited, t with
  | .operand, .opening => some { level := {}, outer := s.level :: s.outer, awaited := .operand }
  | .operand, .column name => some { s with awaited := .sign name }
  | .operand, .phrase text =>
    if text = "not" then some { s with level := s.level.negate }
    else if text = "exists" then some { s with awaited := .column }
    else if text = "true" then some (s.take (.truth true))
    else if text = "false" then some (s.take (.truth false))
    else none
  | .column, .column name => some (s.take (.present name))
  | .sign name, .sign op => some { s with awaited := .literal name op }
  | .literal name op, .phrase text => some (s.take (.compare name op text))
  | .connective, .phrase text =>
    if text = "and" then some { s with awaited := .operand }
    else if text = "or" then some { s with level := s.level.next, awaited := .operand }
    else none
  | .connective, .closing =>
    match s.outer with
    | [] => none
    | v :: outer => some (take { s with level := v, outer := outer } s.level.condition)
  | _, _ => none

/-- What was read, if it is complete. -/
def result? (s : ReadState) : Option Condition :=
  match s.awaited, s.outer with
  | .connective, [] => some s.level.condition
  | _, _ => none

/-- The state behind a text. -/
def run (s : ReadState) (l : List Char) : Option ReadState :=
  (tokens? l).bind fun tokens => tokens.foldlM step s

end ReadState

/-- What a text says, from its first character to its last one. -/
def Condition.read (s : String) : Option Condition :=
  (ReadState.run {} s.toList).bind ReadState.result?

example :
    Condition.read "not r[\"a\"] == -1 or exists r[\"b\"] and (true or r[\"c\"] < uint(v: 7))" =
    some (.any [.not (.compare "a" .equal "-1"),
      .all [.present "b", .any [.truth true, .compare "c" .less "uint(v: 7)"]]]) := by cbv

end TimeSeries.Flux
