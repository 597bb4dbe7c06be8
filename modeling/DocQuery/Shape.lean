import DocQuery.Text.LowerCase
import DocQuery.Value.Written

/-!
# Query shapes

A `Shape` is everything besides the filter that decides how a query runs: what is selected, how rows
are grouped and accumulated, their order, and which of them are wanted.
-/

namespace DocQuery

/-- A request to accumulate columns. A path such as `items.*.price` goes through the array
`items`. -/
structure Aggregate where
  function : Value
  columns : List Value := []
deriving Inhabited

def Aggregate.functionName (a : Aggregate) : Except Fault Text :=
  match a.function.text? with
  | some s => pure (Text.lower s)
  | none => do pure (Text.lower (← a.function.plain))

structure Shape where
  columns : List Value := []
  groups : List Value := []
  aggregate : Option Aggregate := none
  /-- Fields with their directions, in order of precedence. -/
  orders : Value := .map []
  offset : Value := .null
  limit : Value := .null
  distinct : Value := .bool false
  projections : Value := .map []
  /-- Options that go to the store as they are. -/
  options : Value := .map []
  paginating : Value := .bool false
  timeout : Value := .null
deriving Inhabited

namespace Shape

/-- The column that stands for every field. -/
def everyColumn : Value := .text "*"

def needsAggregation (s : Shape) : Bool :=
  !s.groups.isEmpty || s.aggregate.isSome || s.paginating.truthy

/-- The columns to project; none if every field is wanted. -/
def selectedColumns (s : Shape) : List Value :=
  if s.columns.any (·.sameKey everyColumn) then [] else s.columns

end Shape

end DocQuery
