import DocQuery.Plan.Grouping

/-!
# Aggregation pipelines

A pipeline is a list of stages in a fixed order: match, unwind, group, sort, skip, limit, project.
Each stage but the unwinding ones comes at most once, and one that would have nothing to do is left
out. Main definition: `pipeline`.
-/

namespace DocQuery

inductive Stage where
  | keep (filter : Value)
  | unwind (path : Text)
  | group (fields : Entries)
  | sort (orders : Entries)
  | skip (count : Value)
  | limit (count : Value)
  | project (fields : Entries)
deriving Inhabited

def Stage.toEntries : Stage → Entries
  | keep filter => Entries.single "$match" filter
  | unwind path => Entries.single "$unwind" (.text ("$" ++ path))
  | group fields => Entries.single "$group" (.map fields)
  | sort orders => Entries.single "$sort" (.map orders)
  | skip count => Entries.single "$skip" count
  | limit count => Entries.single "$limit" count
  | project fields => Entries.single "$project" (.map fields)

def Stage.toValue (s : Stage) : Value :=
  .map s.toEntries

/-- The stage, if there is something for it to do. -/
def Stage.unlessEmpty (es : Entries) (stage : Entries → Stage) : List Stage :=
  if es.isEmpty then [] else [stage es]

def Stage.whenSet (v : Value) (stage : Value → Stage) : List Stage :=
  if v.truthy then [stage v] else []

theorem Stage.whenSet_succ (n : Nat) (stage : Value → Stage) :
    Stage.whenSet (.int (n + 1 : Nat)) stage = [stage (.int (n + 1 : Nat))] := by
  simp [Stage.whenSet, Value.truthy]
  omega

/-- Pages select their columns by projection, since they are aggregations. -/
def pageProjection (s : Shape) (projections : Entries) : Except Fault Entries := do
  if s.paginating.truthy then
    s.selectedColumns.forM Value.checkHashable
    pure (projections.update (s.selectedColumns.map (·, .int 1)))
  else pure projections

def sortStages (orders : Value) : Except Fault (List Stage) := do
  if orders.truthy then pure [.sort (← orders.toEntries)] else pure []

def pipeline (s : Shape) (filter : Value) : Except Fault (List Stage) := do
  let grouping ← Grouping.ofShape s
  let projections ← pageProjection s (← s.projections.toEntries)
  let sorting ← sortStages s.orders
  pure (Stage.whenSet filter .keep ++ grouping.unwinds.map .unwind ++
    Stage.unlessEmpty grouping.fields .group ++ sorting ++ Stage.whenSet s.offset .skip ++
    Stage.whenSet s.limit .limit ++ Stage.unlessEmpty projections .project)

end DocQuery
