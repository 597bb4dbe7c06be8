import DocQuery.Predicate.Canonical
import DocQuery.Query.Basic
import DocQuery.Value.Arithmetic

/-!
# Refining a query

A `Refinement` is one step that narrows, shapes or orders a query without asking the store. A group
of steps runs on a fresh query and adds its predicates as one. `Refinement.apply` says what a step
leaves behind, also where it fails.
-/

namespace DocQuery

/-- What can be asked of a query without the store. -/
inductive Inspection where
  | predicates
  | collection
  | filter
  | shape (columns : Value)
  | plan (columns : Value)
  | cacheKey
  | fresh
  | collectionMember (name : String)
  /-- What a value makes of the collection; only null makes anything, the collection itself. -/
  | collectionBy (callback : Value)
deriving Inhabited

inductive Refinement where
  | select (columns : List Value)
  | project (projections : Value)
  | timeout (milliseconds : Value)
  | options (given : Value)
  | distinct (column : Value)
  | groupBy (columns : List Value)
  | orderBy (column direction : Value)
  | skip (count : Value)
  | take (count : Value)
  | page (number perPage : Value)
  | test (column operator value connective : Value)
  | among (column values connective negated : Value)
  | null (column connective negated : Value)
  | between (column values connective negated : Value)
  | raw (document connective : Value)
  | group (steps : List Refinement) (connective : Value)
  /-- A group whose steps are given by a value, which has none. -/
  | groupFrom (callback : Value)
  /-- A question, which shows here only by its fault. -/
  | ask (question : Inspection)
deriving Inhabited

namespace Refinement

open Predicate (byAnd byOr)

/-- The direction of an order, unless another one is named. -/
def ascending : Value := .text "asc"

/-- How many rows a page has, unless their number is given. -/
def rowsPerPage : Value := .int 15

def orderByDescending (column : Value) : Refinement :=
  orderBy column (.text "desc")

def orTest (column : Value) (operator value : Value := .missing) : Refinement :=
  test column operator value byOr

def orAmong (column values : Value) : Refinement :=
  among column values byOr (.bool false)

def notAmong (column values : Value) (connective : Value := byAnd) : Refinement :=
  among column values connective (.bool true)

def orNotAmong (column values : Value) : Refinement :=
  notAmong column values byOr

def orNull (column : Value) : Refinement :=
  null column byOr (.bool false)

def notNull (column : Value) (connective : Value := byAnd) : Refinement :=
  null column connective (.bool true)

def orNotNull (column : Value) : Refinement :=
  notNull column byOr

def orBetween (column values : Value) : Refinement :=
  between column values byOr (.bool false)

def notBetween (column values : Value) (connective : Value := byAnd) : Refinement :=
  between column values connective (.bool true)

def orNotBetween (column values : Value) : Refinement :=
  notBetween column values byOr

def orRaw (document : Value) : Refinement :=
  raw document byOr

def orGroup (steps : List Refinement) : Refinement :=
  group steps byOr

end Refinement

/-- What a step leaves behind: the query, and the fault if there was one. -/
structure Refined where
  query : Query
  fault : Option Fault := none
deriving Inhabited

/-- A step that changes nothing where it fails. -/
def Refined.ofExcept (q : Query) : Except Fault Query → Refined
  | .ok changed => { query := changed }
  | .error fault => { query := q, fault := some fault }

namespace Query

def addPredicate (q : Query) (p : Predicate) : Query :=
  { q with predicates := q.predicates ++ [p] }

/-- A group without predicates adds nothing. -/
def addGroup (q : Query) (ps : List Predicate) (connective : Value) : Query :=
  if ps.isEmpty then q else q.addPredicate (.nested ps connective)

/-- An operator may be written with the sigil of the store. -/
def withoutSigil : Value → Value
  | .text (.char '$' :: rest) => .text rest
  | operator => operator

/-- The basic predicate of a test; without a value, the operator is the value to be equal to. -/
def testPredicate (column operator value connective : Value) : Predicate :=
  if value = .missing then .basic column (.text "=") operator connective
  else .basic column (withoutSigil operator) value connective

/-- One equality for each entry of a mapping. -/
def entryTests (es : Entries) : List Predicate :=
  es.map fun e => testPredicate e.1 (.text "=") e.2 Predicate.byAnd

/-- Ascending or descending by name; any other direction is kept. -/
def directionOf (direction : Value) : Value :=
  match direction.text? with
  | some s => .int (if Text.lower s = "asc" then 1 else -1)
  | none => direction

/-- The order in which the store keeps documents has a name of its own there. -/
def orderColumn (column : Value) : Value :=
  if column = .text "natural" then .text "$natural" else column

def orderBy (q : Query) (column direction : Value) : Except Fault Query := do
  let column := orderColumn column
  column.checkHashable
  pure { q with orders := q.orders.insert column (directionOf direction) }

def skip (q : Query) (count : Value) : Except Fault Query := do
  pure { q with offset := ← count.atLeastZero }

/-- A negative count is ignored. -/
def take (q : Query) (count : Value) : Except Fault Query := do
  if ← count.isNonNegative then pure { q with limit := count } else pure q

def project (q : Query) (projections : Value) : Except Fault Query := do
  let es ← match projections with
    | .map es => pure es
    | _ => Value.underKeys (← projections.toColumns) (.int 1)
  pure { q with projections := es }

def select (q : Query) (columns : List Value) : Except Fault Query := do
  pure { q with columns := some (← columns.mapM Value.toColumns).flatten }

def selectDistinct (q : Query) (column : Value) : Query :=
  { q with distinct := true, columns := if column.truthy then some [column] else q.columns }

/-- Limits a query to one page. From then on it is run as an aggregation, even where the page cannot
be reckoned. -/
def page (q : Query) (number perPage : Value) : Refined :=
  let paged := { q with paginating := true }
  Refined.ofExcept paged do (← paged.skip (← Value.pageOffset number perPage)).take perPage

def faultOf (q : Query) : Inspection → Option Fault
  | .filter => fault? q.filter
  | .shape columns => fault? (q.shape columns)
  | .plan columns => fault? (q.plan columns)
  | .cacheKey => fault? q.cacheKey
  | .collectionMember name => if name = "name" ∧ q.collection.name.isSome then none else
    some .noSuchMember
  | .collectionBy callback => if callback.isNull then none else some .wrongType
  | .predicates | .collection | .fresh => none
where
  fault? {α : Type} : Except Fault α → Option Fault
    | .ok _ => none
    | .error fault => some fault

end Query

namespace Refinement

mutual

def apply : Refinement → Query → Refined
  | select columns, q => .ofExcept q (q.select columns)
  | project projections, q => .ofExcept q (q.project projections)
  | timeout milliseconds, q => { query := { q with timeout := milliseconds } }
  | options given, q => .ofExcept q do pure { q with options := ← given.toEntries }
  | distinct column, q => { query := q.selectDistinct column }
  | groupBy columns, q => { query := { q with groups := q.groups ++ columns } }
  | orderBy column direction, q => .ofExcept q (q.orderBy column direction)
  | skip count, q => .ofExcept q (q.skip count)
  | take count, q => .ofExcept q (q.take count)
  | page number perPage, q => q.page number perPage
  | test (.map es) _ _ connective, q => { query := q.addGroup (Query.entryTests es) connective }
  | test column operator value connective, q =>
    { query := q.addPredicate (Query.testPredicate column operator value connective) }
  | among column values connective negated, q => .ofExcept q do
    pure (q.addPredicate (← Predicate.among column values connective negated.truthy))
  | null column connective negated, q =>
    { query := q.addPredicate (Predicate.isNull column connective negated.truthy) }
  | between column values connective negated, q => .ofExcept q do
    pure (q.addPredicate (← Predicate.between column values connective negated))
  | raw document connective, q => .ofExcept q do
    pure (q.addPredicate (Predicate.raw (.map (← document.toEntries)) connective))
  | group steps connective, q =>
    let inner := applyAll steps q.fresh
    match inner.fault with
    | some fault => { query := q, fault := some fault }
    | none => { query := q.addGroup inner.query.predicates connective }
  | groupFrom _, q => { query := q, fault := some .wrongType }
  | ask question, q => { query := q, fault := q.faultOf question }
termination_by structural r => r

def applyAll : List Refinement → Query → Refined
  | [], q => { query := q }
  | r :: rs, q =>
    let first := r.apply q
    match first.fault with
    | some fault => { query := first.query, fault := some fault }
    | none => applyAll rs first.query
termination_by structural rs => rs

end

end Refinement

end DocQuery
