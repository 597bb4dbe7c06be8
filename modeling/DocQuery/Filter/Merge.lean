import DocQuery.Filter.Clause

/-!
# Merging clauses

Merging puts the clauses of the right side into the document of the left one. A clause joins the
first clause that it can be combined with: conjunctions with conjunctions, disjunctions with
disjunctions, and tests of one field with each other. `Clause.keys_eq_of_combine` says that combined
clauses have the same keys, which is why nothing in a document is overwritten.
-/

namespace DocQuery.Clause

/-- One clause for two that write the same key, where there is one. -/
def combine : Clause → Clause → Option Clause
  | all cs, all ds => some (all (cs ++ ds))
  | any cs, any ds => some (any (cs ++ ds))
  | tests f ops, tests g more =>
    if f.sameKey g then some (tests f (ops.update more)) else none
  | _, _ => none

/-- Adds a clause to those of a document. -/
def addTo : List Clause → Clause → List Clause
  | [], c => [c]
  | d :: ds, c => match d.combine c with
    | some joined => joined :: ds
    | none => d :: addTo ds c

/-- The clauses of both sides in one document. -/
def join (left right : Clause) : Clause :=
  document (right.clauses.foldl addTo left.clauses)

/-- Compares a clause with those of a document up to the one that it joins; fails where the keys of
a clause cannot be told. -/
def compareKeys (c : Clause) : List Clause → Except Fault Unit
  | [] => pure ()
  | d :: ds => do
    let _ ← d.keys
    let _ ← c.keys
    if (d.combine c).isSome then pure () else compareKeys c ds

def compareAll : List Clause → List Clause → Except Fault Unit
  | _, [] => pure ()
  | ds, c :: cs => do
    compareKeys c ds
    compareAll (addTo ds c) cs

/-- The clauses of both sides in one document, if the keys that have to be compared can be told. -/
def merge (left right : Clause) : Except Fault Clause := do
  compareAll left.clauses right.clauses
  pure (left.join right)

theorem keys_eq_of_combine {c d joined : Clause} (h : c.combine d = some joined) :
    joined.keys = c.keys := by
  revert h
  fun_cases combine c d <;> intro h <;> simp_all [keys] <;> subst h <;> simp [keys]

end DocQuery.Clause
