import DocQuery.Query.Read
import DocQuery.Query.Write

/-!
# Steps of a session

A session goes on by steps: refining the query, asking something of it, reading and writing.
`Step.run` says what a step answers, what it sends and logs, and the query after it, also where it
fails.
-/

namespace DocQuery

inductive Step where
  | refine (r : Refinement)
  | inspect (i : Inspection)
  | read (r : Read)
  | write (w : Write)
deriving Inhabited

inductive Answer where
  | itself
  /-- A fresh query, on which the session goes on. -/
  | fresh
  | collection
  | value (v : Value)
  | predicates (ps : List Predicate)
  | shape (s : Shape)
  | plan (p : Plan)
deriving Inhabited

structure Outcome where
  answer : Except Fault Answer
  session : Session Query

namespace Step

open Run

def refineQuery (r : Refinement) : Run Query Answer := do
  let refined := r.apply (← subject)
  setSubject refined.query
  match refined.fault with
  | some fault => throw fault
  | none => pure .itself

def inspectQuery (i : Inspection) : Run Query Answer := do
  let q ← subject
  match i with
  | .predicates => pure (.predicates q.predicates)
  | .collection => pure .collection
  | .filter => return .value (.map (← orFail q.filter))
  | .shape columns => return .shape (← orFail (q.shape columns))
  | .plan columns => return .plan (← orFail (q.plan columns))
  | .cacheKey => return .value (.text (← orFail q.cacheKey))
  | .fresh =>
    setSubject q.fresh
    pure .fresh
  | .collectionMember name =>
    match name, q.collection.name with
    | "name", some v => pure (.value v)
    | _, _ => throw .noSuchMember
  | .collectionBy callback => if callback.isNull then pure .collection else throw .wrongType

def action (r : Replies) : Step → Run Query Answer
  | refine change => refineQuery change
  | inspect question => inspectQuery question
  | read what => do return .value (← what.run r)
  | write what => do return .value (← what.run r)

def run (step : Step) (r : Replies) (q : Query) : Outcome :=
  let (answer, session) := (step.action r).run { subject := q }
  { answer, session }

def runAll : List (Step × Replies) → Query → List Outcome
  | [], _ => []
  | (step, r) :: steps, q =>
    let outcome := step.run r q
    outcome :: runAll steps outcome.session.subject

end Step

end DocQuery
