import DocQuery.Path
import DocQuery.Shape
import DocQuery.Value.Entries

/-!
# Grouping stages

The grouping stage keeps the last value of every group column and of every selected column, and
accumulates the aggregate under a name of its own. Group columns also make up the identity of a
group; without them there is one group of all rows. Main definition: `Grouping.ofShape`.
-/

namespace DocQuery

/-- The fields of a grouping stage and the arrays to unwind before it. -/
structure Grouping where
  fields : Entries := []
  unwinds : List Text := []
deriving Inhabited

namespace Grouping

def idKey : Value := .text "_id"

def aggregateKey : Value := .text "aggregate"

def reference (column : Value) : Except Fault Value := do
  pure (.text ("$" ++ (← column.plain)))

def lastOf (source : Value) : Value :=
  .map (Entries.single "$last" source)

def countOf : Value :=
  .map (Entries.single "$sum" (.int 1))

/-- Writes an entry into the identity of the groups. -/
def insertIntoId (fields : Entries) (column source : Value) : Entries :=
  let identity := match Entries.get? fields idKey with
    | some (.map es) => es
    | _ => []
  fields.insert idKey (.map (Entries.insert identity column source))

def addGroupColumn (fields : Entries) (column : Value) : Except Fault Entries := do
  let source ← reference column
  column.checkHashable
  pure ((insertIntoId fields column source).insert column (lastOf source))

/-- The output field of a selected column: its path with underscores for dots. -/
def outputField (column : Value) : Except Fault Text :=
  match column with
  | .bytes _ | .dateTime _ | .date _ => throw .wrongType
  | _ => match column.text? with
    | some path => pure (Path.flatten path)
    | none => throw .noSuchMember

def addSelectedColumn (fields : Entries) (column : Value) : Except Fault Entries := do
  let source ← reference column
  let name ← outputField column
  pure (fields.insert (.text name) (lastOf source))

/-- The parts of an aggregate column between its array marks. -/
def aggregateParts (column : Value) : Except Fault (List Value) :=
  Path.parts Path.markedParts ".*." column

def countName : Text := "count"

/-- Accumulates one column; a path with a single mark unwinds the array before the mark. -/
def addAggregateColumn (function : Text) (g : Grouping) (column : Value) :
    Except Fault Grouping := do
  let parts ← aggregateParts column
  let (unwinds, source) := match parts with
    | [.text array, .text rest] => (g.unwinds ++ [array], .text (array ++ "." ++ rest))
    | _ => (g.unwinds, column)
  let accumulated ←
    if function = countName then pure countOf
    else do pure (.map (Entries.single ("$" ++ function) (← reference source)))
  pure { fields := g.fields.insert aggregateKey accumulated, unwinds }

def addAggregate (g : Grouping) (a : Aggregate) : Except Fault Grouping := do
  let function ← a.functionName
  if a.columns.isEmpty then
    if function = countName then
      pure { g with fields := g.fields.insert aggregateKey countOf }
    else throw (.columnRequired function)
  else a.columns.foldlM (addAggregateColumn function) g

/-- A stage that groups by nothing has all rows in one group. -/
def closeId (fields : Entries) : Entries :=
  if fields.isEmpty || ((Entries.get? fields idKey).getD .null).truthy then fields
  else fields.insert idKey .null

def ofShape (s : Shape) : Except Fault Grouping := do
  let grouped ←
    if s.groups.isEmpty then pure []
    else
      let fields ← s.groups.foldlM addGroupColumn []
      s.selectedColumns.foldlM addSelectedColumn fields
  let g ← match s.aggregate with
    | none => pure { fields := grouped }
    | some a => addAggregate { fields := grouped } a
  pure { g with fields := closeId g.fields }

end Grouping

end DocQuery
