import DocQuery.Value.Entries

/-!
# Filter clauses

A `Clause` is a filter in the making; `Clause.render` writes its filter document and `Clause.keys`
lists the keys of that document without its values. Rendering fails for the bare clause, which has
no document, and for a raw clause whose content is no mapping.
-/

namespace DocQuery

inductive Clause where
  | equals (field value : Value)
  /-- The field passes tests, each an operator with its operand. -/
  | tests (field : Value) (operators : Entries)
  | all (clauses : List Clause)
  | any (clauses : List Clause)
  /-- A document that the caller wrote. -/
  | raw (content : Value)
  /-- Clauses side by side in one document. -/
  | document (clauses : List Clause)
  /-- The clause that says nothing, not even its document. -/
  | bare
deriving Inhabited

namespace Clause

def allKey : Value := .text "$and"

def anyKey : Value := .text "$or"

mutual

def render : Clause → Except Fault Entries
  | equals field value => do
    field.checkHashable
    pure [(field, value)]
  | tests field operators => do
    field.checkHashable
    pure [(field, .map operators)]
  | all cs => do pure [(allKey, .list (← renderEach cs))]
  | any cs => do pure [(anyKey, .list (← renderEach cs))]
  | raw content => content.toEntries
  | document cs => renderOnto cs []
  | bare => throw .abstractClause
termination_by structural c => c

def renderEach : List Clause → Except Fault (List Value)
  | [] => pure []
  | c :: cs => do
    let d ← c.render
    pure (.map d :: (← renderEach cs))
termination_by structural cs => cs

/-- Writes the documents of the clauses into a document, one after the other. -/
def renderOnto : List Clause → Entries → Except Fault Entries
  | [], es => pure es
  | c :: cs, es => do renderOnto cs (es.update (← c.render))
termination_by structural cs => cs

end

mutual

def keys : Clause → Except Fault (List Value)
  | equals field _ | tests field _ => pure [field]
  | all _ => pure [allKey]
  | any _ => pure [anyKey]
  | raw content => do pure (Entries.keys (← content.toEntries))
  | document cs => keysOnto cs []
  | bare => throw .abstractClause
termination_by structural c => c

def keysOnto : List Clause → List Value → Except Fault (List Value)
  | [], ks => pure ks
  | c :: cs, ks => do
    let new ← c.keys
    new.forM Value.checkHashable
    keysOnto cs (new.foldl Entries.addKey ks)
termination_by structural cs => cs

end

/-- The clauses that stand side by side in the document of a clause. -/
def clauses : Clause → List Clause
  | document cs => cs
  | c => [c]

/-- Only a document without clauses is empty. -/
def isEmpty : Clause → Bool
  | document cs => cs.isEmpty
  | _ => false

end Clause

end DocQuery
