import DocQuery.Query.Basic
import DocQuery.Query.Refine
import DocQuery.Update

/-!
# Writes

A write compiles the query's filter and an update document, sends them to the collection as one
operation, and answers with how many documents it has changed. A write that the store does not
acknowledge has changed none.
-/

namespace DocQuery

inductive Write where
  | insert (values : Value)
  | insertGetId (values sequence : Value)
  | update (values options : Value)
  | increment (column amount extra options : Value)
  | decrement (column amount extra options : Value)
  | push (column value unique : Value)
  | pull (column value : Value)
  | unset (columns : Value)
  | delete (id : Value)
  | truncate
deriving Inhabited

namespace Write

open Run

/-- One document, or each of a sequence of documents. -/
def documentsOf (values : Value) : Except Fault (List Value) :=
  match values with
  | .map es => pure [.map es]
  | _ => do (← values.items).mapM fun v => do pure (.map (← v.toEntries))

/-- How many documents an update has changed; one that was created counts. -/
def changed (result : WriteResult) : Except Fault Value :=
  if result.modified.truthy then do pure (.int (← result.modified.toInteger))
  else pure (.int (if result.upsertedId.isNull then 0 else 1))

def perform (r : Replies) (update : Entries) (options : Value) : Run Query Value := do
  let (multiple, options) ← orFail (splitMultiple options)
  let filter ← orFail (← subject).filter
  checkOptionNames options
  call r.failure
    { name := if multiple then "update_many" else "update_one"
      arguments := [.map filter, .map update], options }
  if r.result.acknowledged.truthy then orFail (changed r.result)
  else
    logUnacknowledged "update"
    pure (.int 0)

/-- Sends an increment; the query keeps its guard. -/
def performGuarded (r : Replies) (i : Increment) (options : Value) : Run Query Value := do
  let q ← subject
  setSubject { q with predicates := i.applyGuard q.predicates }
  perform r i.update options

def fieldOf (document : Entries) (field : Value) : Except Fault Value := do
  field.checkHashable
  match Entries.get? document field with
  | some v => pure v
  | none => throw .missingKey

def insertOne (r : Replies) (values sequence : Value) : Run Query Value := do
  let document ← orFail values.toEntries
  call r.failure { name := "insert_one", arguments := [.map document] }
  if r.result.acknowledged.truthy then
    if sequence.isNull || sequence = .text "_id" then pure r.result.insertedId
    else orFail (fieldOf document sequence)
  else
    logUnacknowledged "insert_one"
    pure .null

/-- Deletes the documents of the query, which keeps the predicate of a given identifier. -/
def deleteAll (r : Replies) (id : Value) : Run Query Value := do
  let q ← subject
  setSubject (if id.isNull then q else q.addPredicate
    (Query.testPredicate (.text "_id") (.text "=") id Predicate.byAnd))
  let filter ← orFail (← subject).filter
  call r.failure { name := "delete_many", arguments := [.map filter] }
  if r.result.acknowledged.truthy then return .int (← orFail r.result.deleted.toInteger)
  else
    logUnacknowledged "delete"
    pure (.int 0)

def run (r : Replies) : Write → Run Query Value
  | insert values => do
    let documents ← orFail (documentsOf values)
    call r.failure { name := "insert_many", arguments := [.list documents] }
    pure (.bool r.result.acknowledged.truthy)
  | insertGetId values sequence => insertOne r values sequence
  | update values options => do perform r (← orFail (setUpdate values)) options
  | increment column amount extra options => do
    performGuarded r (← orFail (Increment.add column amount extra)) options
  | decrement column amount extra options => do
    performGuarded r (← orFail (Increment.subtract column amount extra)) options
  | push column value unique => do
    perform r (← orFail (arrayInsert column value unique.truthy)) .null
  | pull column value => do perform r (← orFail (arrayRemove column value)) .null
  | unset columns => do perform r (← orFail (unsetUpdate columns)) .null
  | delete id => deleteAll r id
  | truncate => do
    call r.failure { name := "drop" }
    pure (.bool true)

end Write

end DocQuery
