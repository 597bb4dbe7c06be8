import DocQuery.Filter.Clause
import DocQuery.Message
import DocQuery.Pattern.Notation
import DocQuery.Value.Written

/-!
# Clauses of comparisons

Each function here writes the clause of one kind of test from its column and its operands: a
comparison, a pattern, a membership or a range.
-/

namespace DocQuery

def comparisonSigns : List (Text × Text) :=
  [("!=", "$ne"), ("<>", "$ne"), ("<", "$lt"), ("<=", "$lte"), (">", "$gt"), (">=", "$gte")]

def testClause (column : Value) (operator : Text) (operand : Value) : Clause :=
  .tests column (Entries.single operator operand)

/-- Equality, a comparison sign, or an operator that goes to the store under its own name. -/
def comparisonClause (column operator value : Value) : Except Fault Clause := do
  if operator = .null || operator = .text "=" then pure (.equals column value)
  else
    operator.checkHashable
    match operator.text?.bind (comparisonSigns.lookup ·) with
    | some name => pure (testClause column name value)
    | none => pure (testClause column ("$" ++ (← operator.plain)) value)

inductive PatternTest where
  | like
  | notLike
  | regex
  | notRegex
deriving DecidableEq, Repr

def patternTests : List (Text × PatternTest) :=
  [("like", .like), ("ilike", .like), ("not like", .notLike), ("not ilike", .notLike),
    ("regex", .regex), ("regexp", .regex), ("not regex", .notRegex), ("not regexp", .notRegex)]

def patternTest? (operator : Value) : Option PatternTest :=
  operator.text?.bind (patternTests.lookup ·)

/-- The regular expression of a wildcard pattern. -/
def likeRegex (s : Text) : Value :=
  .regex (.text (Pattern.like s)) .ignoreCase

/-- The wildcard pattern of a value that must be text. -/
def likeRegexOf (v : Value) : Except Fault Value :=
  match v.text? with
  | some s => pure (likeRegex s)
  | none => throw .wrongType

/-- The text that a pattern operand is matched by. -/
def patternText (v : Value) : Except Fault Text :=
  match v.text? with
  | some s => pure s
  | none => v.plain

/-- A compiled pattern and a text between slashes as a regular expression; the rest unchanged. -/
def parseRegex (v : Value) : Value :=
  match v with
  | .compiled pattern flags => .regex pattern ⟨flags, false⟩
  | _ => match v.text?.bind Pattern.delimited? with
    | some (pattern, letters) => .regex (.text pattern) (.ofLetters letters)
    | none => v

/-- A regular expression, where a bare text is one without flags. -/
def regexOperand (v : Value) : Value :=
  if v.isText then .regex v .empty else v

def patternClause (column value : Value) : PatternTest → Except Fault Clause
  | .like => do pure (.equals column (likeRegex (← patternText value)))
  | .notLike => do pure (testClause column "$not" (likeRegex (← patternText value)))
  | .regex => pure (testClause column "$regex" (parseRegex value))
  | .notRegex => pure (testClause column "$not" (regexOperand (parseRegex value)))

/-- The clause of a pattern operator, or none for any other operator. -/
def patternClause? (column operator value : Value) : Except Fault (Option Clause) := do
  operator.checkHashable
  match patternTest? operator with
  | some test => do pure (some (← patternClause column value test))
  | none => pure none

def membershipClause (column values : Value) (negated : Bool) : Except Fault Clause := do
  let vs ← values.items
  pure (testClause column (if negated then "$nin" else "$in") (.list vs))

def bounds? : Value → Option (Value × Value)
  | .list [low, high] | .tuple [low, high] => some (low, high)
  | _ => none

/-- A range with its ends, or what lies outside of it, again with its ends. -/
def rangeClause (column values : Value) (negated : Bool) : Except Fault Clause :=
  match bounds? values with
  | none => throw (Malformed.badBounds negated values).fault
  | some (low, high) =>
    if negated then pure (.any [testClause column "$lte" low, testClause column "$gte" high])
    else pure (.tests column [(.text "$gte", low), (.text "$lte", high)])

end DocQuery
