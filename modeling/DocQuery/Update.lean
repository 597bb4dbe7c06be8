import DocQuery.Predicate.Canonical
import DocQuery.Value.Arithmetic
import DocQuery.Value.Entries
import DocQuery.Value.Written

/-!
# Update documents

What a caller wants changed, written as a document of update operators. An increment comes with a
guard, the predicate that keeps it off fields that are null.
-/

namespace DocQuery

def isOperatorKey (k : Value) : Except Fault Bool := do
  pure ((← k.plain).head? == some (.char '$'))

/-- Whether one of the keys is an operator; those after it are not looked at. -/
def anyOperatorKey : List Value → Except Fault Bool
  | [] => pure false
  | k :: ks => do if ← isOperatorKey k then pure true else anyOperatorKey ks

/-- The values as they are if one of their keys is an operator, else as fields to set. -/
def setUpdate (values : Value) : Except Fault Entries := do
  let operators ← anyOperatorKey (← values.items)
  let es ← values.toEntries
  pure (if operators then es else Entries.single "$set" (.map es))

/-- An increment and the predicate that must hold where it runs. -/
structure Increment where
  update : Entries
  guard : Predicate
deriving Inhabited

namespace Increment

/-- The field is missing or is not null. -/
def guardOf (column : Value) : Predicate :=
  .nested [.basic column (.text "exists") (.bool false), .isNull column Predicate.byOr true]

/-- Adds an amount to a field, and sets the further fields. -/
def add (column : Value) (amount : Value := .int 1) (extra : Value := .null) :
    Except Fault Increment := do
  column.checkHashable
  let inc := Entries.single "$inc" (.map [(column, amount)])
  let further ← if extra.truthy then extra.toEntries else pure []
  let set := if extra.truthy then Entries.single "$set" (.map further) else []
  pure { update := inc ++ set, guard := guardOf column }

def subtract (column : Value) (amount : Value := .int 1) (extra : Value := .null) :
    Except Fault Increment := do
  add column (← amount.negative) extra

def applyGuard (i : Increment) (ps : List Predicate) : List Predicate :=
  ps ++ [i.guard]

end Increment

/-- An update of one array field, or of the fields of a mapping. -/
def arrayUpdate (operator : Text) (column operand : Value) : Except Fault Entries :=
  match column with
  | .map es => pure (Entries.single operator (.map es))
  | _ => do
    column.checkHashable
    pure (Entries.single operator (.map [(column, operand)]))

/-- Adds one value to an array, or each of a dense sequence of values. -/
def arrayInsert (column : Value) (value : Value := .null) (unique : Bool := false) :
    Except Fault Entries :=
  arrayUpdate (if unique then "$addToSet" else "$push") column
    (if value.isDense then .map (Entries.single "$each" (.list value.elements)) else value)

/-- Removes one value from an array, or each of a dense sequence of values. -/
def arrayRemove (column : Value) (value : Value := .null) : Except Fault Entries :=
  if value.isDense then arrayUpdate "$pullAll" column (.list value.elements)
  else arrayUpdate "$pull" column value

def unsetUpdate (columns : Value) : Except Fault Entries := do
  let ks ← if columns.isText then pure [columns] else columns.items
  pure (Entries.single "$unset" (.map (← Value.underKeys ks (.int 1))))

/-- The option that says whether a write may change more than one document. -/
def multipleKey : Value := .text "multiple"

/-- Whether a write changes every matching document, and the options without that flag. -/
def splitMultiple (options : Value := .null) : Except Fault (Bool × Entries) := do
  let es ← if options.truthy then options.toEntries else pure []
  pure (((Entries.get? es multipleKey).getD (.bool true)).truthy, Entries.erase es multipleKey)

end DocQuery
