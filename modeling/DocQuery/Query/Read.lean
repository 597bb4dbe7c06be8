import DocQuery.Path
import DocQuery.Query.Basic
import DocQuery.Query.Refine

/-!
# Reads

A read plans the query, sends the plan to the collection as one operation, and picks its answer from
the rows that come back. Main definitions: `Read.rows` and `Read.run`.
-/

namespace DocQuery

inductive Read where
  | get (columns : Value)
  | first (columns : Value)
  | find (id columns : Value)
  | value (column : Value)
  | any
  | pluck (column key : Value)
  | aggregate (function columns : Value)
  | count (column : Value)
deriving Inhabited

namespace Read

open Run

/-- An accumulation of one column. -/
def total (function : Text) (column : Value) : Read :=
  aggregate (.text function) (.list [column])

def sum (column : Value) : Read :=
  total "sum" column

def avg (column : Value) : Read :=
  total "avg" column

def min (column : Value) : Read :=
  total "min" column

def max (column : Value) : Read :=
  total "max" column

/-- The column that is counted unless another one is named: rows are counted. -/
def everyRow : Value := Shape.everyColumn

def fetch (r : Replies) : Run Query (List Value) := do
  call r.failure { name := "to_list", options := Entries.single "length" .null }
  orFail r.rows.items

def logPlan (p : Plan) : Run Query Unit := do
  logNamed ("DEBUG Executing " ++ p.strategy ++ " plan on ")
    ((← subject).collection.name.getD (.text "?"))

def execute (r : Replies) (p : Plan) : Run Query (List Value) := do
  logPlan p
  match p with
  | .aggregate stages options =>
    checkOptionNames options
    call r.failure { name := "aggregate", arguments := [.list (stages.map Stage.toValue)], options }
    fetch r
  | .distinct key filter =>
    let arguments := if filter.truthy then [key, filter] else [key]
    call r.failure { name := "distinct", arguments }
    orFail r.rows.items
  | .find filter options =>
    checkOptionNames options
    call r.failure { name := "find", arguments := [filter], options }
    fetch r

def rows (r : Replies) (columns : Value) : Run Query (List Value) := do
  execute r (← orFail ((← subject).plan columns))

/-- The first row, or null; the query keeps the limit of one. -/
def firstRow (r : Replies) (columns : Value) : Run Query Value := do
  setSubject (← orFail ((← subject).take (.int 1)))
  return (← rows r columns).headD .null

/-- Rows under the values of a further column. Identifiers are keys by their digits. -/
def insertPlucked (column key : Value) (plucked : Entries) (row : Value) :
    Except Fault Entries := do
  let rowKey ← Path.read row key
  let rowKey := match rowKey with
    | .objectId hex => if key = .text "_id" then .text hex else rowKey
    | _ => rowKey
  let value ← Path.read row column
  rowKey.checkHashable
  pure (plucked.insert rowKey value)

/-- The values of a column, in a list or under the values of a further column. -/
def pluckFrom (rows : List Value) (column key : Value) : Except Fault Value :=
  if key.isNull then do pure (.list (← rows.mapM (Path.read · column)))
  else do pure (.map (← rows.foldlM (insertPlucked column key) []))

/-- The accumulated value in the only row of an aggregation. -/
def accumulated (rows : List Value) : Except Fault Value :=
  match rows with
  | [] => pure .null
  | .map es :: _ => pure ((Entries.get? es Grouping.aggregateKey).getD .null)
  | _ :: _ => throw .noSuchMember

/-- Accumulates columns; afterwards the query is without an aggregate and with its columns again. -/
def accumulate (r : Replies) (function columns : Value) : Run Query Value := do
  let vs ← orFail columns.items
  let q ← subject
  setSubject { q with aggregate := some { function, columns := vs } }
  let found ← andThen (rows r (.list vs)) fun s =>
    { s with aggregate := none, columns := q.columns }
  orFail (accumulated found)

def run (r : Replies) : Read → Run Query Value
  | get columns => do return .list (← rows r columns)
  | first columns => firstRow r columns
  | find id columns => do
    let q ← subject
    setSubject (q.addPredicate
      (Query.testPredicate (.text "_id") (.text "=") id.withIdentifiers Predicate.byAnd))
    firstRow r columns
  | value column => do
    let row ← firstRow r (.list [column])
    if row.truthy then orFail (Path.read row column) else pure .null
  | any => do return .bool !(← firstRow r .null).isNull
  | pluck column key => do
    let found ← rows r (.list (if key.isNull then [column] else [column, key]))
    orFail (pluckFrom found column key)
  | aggregate function columns => accumulate r function columns
  | count column => do
    let total ← accumulate r (.text "count") (.list [column])
    return .int (← orFail (if total.truthy then total else .int 0).toInteger)

end Read

end DocQuery
