import DocQuery.CacheKey
import DocQuery.Plan.Basic
import DocQuery.Predicate.Compile
import DocQuery.Session

/-!
# Queries

A `Query` is bound to one collection and gathers predicates and shape until it is run. What it
stands for at any moment is its filter document, its shape and the plan of the two. A session of a
query sends its calls to one collection; what the store answers to a read or a write is ready in the
`Replies`.
-/

namespace DocQuery

/-- A collection as the store presents it, with its name and the name of its database where it has
them. -/
structure Collection where
  name : Option Value := none
  database : Option Value := none
deriving Inhabited

structure Query where
  collection : Collection
  /-- The name of the database, if the caller gave one. -/
  database : Value := .null
  predicates : List Predicate := []
  /-- The selected columns, once something was selected. -/
  columns : Option (List Value) := none
  groups : List Value := []
  aggregate : Option Aggregate := none
  orders : Entries := []
  offset : Value := .null
  limit : Value := .null
  distinct : Bool := false
  projections : Entries := []
  options : Entries := []
  paginating : Bool := false
  timeout : Value := .null
deriving Inhabited

namespace Query

/-- A query without predicates and shape on the same collection. -/
def fresh (q : Query) : Query :=
  { collection := q.collection, database := q.database }

def filter (q : Query) : Except Fault Entries :=
  compileFilter q.predicates

/-- The shape, with the given columns unless the query has selected its own. -/
def shape (q : Query) (columns : Value := .null) : Except Fault Shape := do
  let selected ← match q.columns with
    | some vs => pure vs
    | none => columns.toColumns
  pure
    { columns := selected
      groups := q.groups
      aggregate := q.aggregate
      orders := .map q.orders
      offset := q.offset
      limit := q.limit
      distinct := .bool q.distinct
      projections := .map q.projections
      options := .map q.options
      paginating := .bool q.paginating
      timeout := q.timeout }

def plan (q : Query) (columns : Value := .null) : Except Fault Plan := do
  let s ← q.shape columns
  let f ← q.filter
  DocQuery.plan s (.map f)

/-- The text of a name, empty where there is no name. -/
def nameText (name : Option Value) : Except Fault Value :=
  match name with
  | some v => do pure (.text (← v.plain))
  | none => pure (.text "")

/-- The caller's name of the database, or else that of the collection's. -/
def databaseName (q : Query) : Except Fault Value :=
  if q.database.truthy then pure q.database else nameText q.collection.database

def cacheKey (q : Query) : Except Fault String := do
  let s ← q.shape
  let f ← q.filter
  DocQuery.cacheKey s (.map f) (← q.databaseName) (← nameText q.collection.name)

/-- The name of the collection, which must have one. -/
def collectionName (q : Query) : Except Fault Value :=
  match q.collection.name with
  | some name => pure name
  | none => throw .noSuchMember

end Query

structure WriteResult where
  acknowledged : Value := .bool true
  modified : Value := .int 0
  deleted : Value := .int 0
  upsertedId : Value := .null
  insertedId : Value := .null
deriving Inhabited

structure Replies where
  rows : Value := .list []
  result : WriteResult := {}
  failure : Option Failure := none
deriving Inhabited

/-- Notes that the store has not acknowledged a write. -/
def Run.logUnacknowledged (write : Text) : Run Query Unit := do
  logNamed ("DEBUG " ++ write ++ " not acknowledged on ") (← orFail (← subject).collectionName)

end DocQuery
