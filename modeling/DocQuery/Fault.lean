import DocQuery.Value.Basic

/-!
# Predicates and what can go wrong

A `Predicate` is one clause of a query as the caller wrote it. Its fields are unchecked values:
which of them a clause needs depends on its kind, and compiling it finds out whether they are there.
`Fault` lists the causes for which an operation of this library fails; a malformed predicate is kept
in its fault, and a fault of the store with the text it came with.
-/

namespace DocQuery

/-- One clause of a query and how it joins the clause before it. -/
structure Predicate where
  /-- Selects the meaning of the other fields; a `Kind` or its text. -/
  kind : Value
  column : Value := .null
  /-- The comparison of a basic predicate; none means equality. -/
  operator : Value := .null
  /-- The operand of a basic predicate. -/
  value : Value := .null
  /-- The operands of a membership or range test. -/
  values : Value := .null
  connective : Value := .member (.connective .and)
  negated : Value := .bool false
  /-- The predicates of a nested group. -/
  group : List Predicate := []
  /-- The filter document of a raw predicate. -/
  document : Value := .null
deriving Inhabited

inductive Malformed where
  | unknownKind (kind : Value)
  | missingColumn (p : Predicate)
  | missingValues (p : Predicate)
  | missingDocument (p : Predicate)
  /-- The operand of a range test is not a list of two values. -/
  | badBounds (negated : Bool) (values : Value)
deriving Inhabited

inductive ConnectionFault where
  | notConnected
  | noDatabaseName
  | driverMissing
  | clientFailed (reason : String)
deriving DecidableEq, Repr, Inhabited

/-- Where an error of the store comes from. -/
inductive Origin where
  | driver
  | arguments
  | elsewhere
deriving DecidableEq, Repr, Inhabited

structure StoreError where
  origin : Origin
  name : String
  message : String
deriving DecidableEq, Repr, Inhabited

inductive Fault where
  | wrongType
  | noSuchMember
  /-- A value of the right type that the operation cannot use. -/
  | badValue
  /-- A result that its type cannot hold. -/
  | outOfRange
  | outOfMemory
  | missingKey
  /-- A clause that has no document of its own. -/
  | abstractClause
  | malformed (m : Malformed)
  /-- An accumulator that needs a column was given none. -/
  | columnRequired (function : Text)
  | connection (c : ConnectionFault)
  | raised (e : StoreError)
deriving Inhabited

end DocQuery
