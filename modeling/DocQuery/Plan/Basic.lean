import DocQuery.Plan.Pipeline

/-!
# Plans

A `Plan` says how a query runs: as a fetch of documents, a fetch of the distinct values of one
field, or an aggregation. `plan` chooses by the shape alone: groups, an aggregate or paging need an
aggregation.
-/

namespace DocQuery

inductive Plan where
  | find (filter : Value) (options : Entries)
  /-- A filter that keeps everything is left out, as null. -/
  | distinct (key filter : Value)
  | aggregate (stages : List Stage) (options : Entries)
deriving Inhabited

def Plan.strategy : Plan → String
  | find .. => "find"
  | distinct .. => "distinct"
  | aggregate .. => "aggregate"

def optionWhenSet (name : Text) (v : Value) : Entries :=
  if v.truthy then Entries.single name v else []

/-- The order of rows as pairs of a field and its direction. -/
def sortPairs (orders : Value) : Except Fault (List Value) :=
  match orders with
  | .map es => pure (es.map fun e => .tuple [e.1, e.2])
  | _ => throw .noSuchMember

def sortOption (orders : Value) : Except Fault Entries := do
  if orders.truthy then pure (Entries.single "sort" (.list (← sortPairs orders))) else pure []

/-- The selected columns, overridden by the explicit projections. -/
def findProjection (s : Shape) : Except Fault Entries := do
  let columns ← Value.underKeys s.selectedColumns (.bool true)
  pure (columns.update (← s.projections.toEntries))

/-- The options of a fetch; the caller's own come last and win. -/
def findOptions (s : Shape) : Except Fault Entries := do
  let projection ← findProjection s
  let sort ← sortOption s.orders
  let options := optionWhenSet "max_time_ms" s.timeout ++ sort ++ optionWhenSet "skip" s.offset ++
    optionWhenSet "limit" s.limit ++ optionWhenSet "projection" (.map projection)
  pure (Entries.update options (← s.options.toEntries))

/-- The field of a distinct fetch: the first selected column. -/
def distinctKey (s : Shape) : Value :=
  s.selectedColumns.headD Grouping.idKey

def plan (s : Shape) (filter : Value) : Except Fault Plan := do
  if s.needsAggregation then
    let stages ← pipeline s filter
    pure (.aggregate stages (← s.options.toEntries))
  else if s.distinct.truthy then
    pure (.distinct (distinctKey s) (if filter.truthy then filter else .null))
  else pure (.find filter (← findOptions s))

end DocQuery
