import DocQuery.Filter.Merge
import DocQuery.Predicate.Canonical
import DocQuery.Predicate.Operand

/-!
# Compiling predicates

A list of predicates becomes one clause. Each predicate is brought into canonical form and compiled
by its kind; in a list of two or more, each is put under its connective and the results are joined.
The first predicate of such a list takes the connective of the second one if that is a disjunction.
Main definitions: `compile` and the filter document `compileFilter`.
-/

namespace DocQuery

namespace Predicate

/-- A pattern if the operator is one, else a comparison. -/
def basicClause (column operator value : Value) : Except Fault Clause := do
  match ← patternClause? column operator value with
  | some c => pure c
  | none => comparisonClause column operator value

/-- The listed operands, which must be there. -/
def requiredValues (p : Predicate) : Except Fault Value :=
  if p.values.isNull then throw (Malformed.missingValues p).fault else pure p.values

/-- The clause of a predicate in canonical form, given the clause of its group. -/
def clauseOfKind (p : Predicate) (group : Except Fault Clause) : Kind → Except Fault Clause
  | .basic => basicClause p.column p.operator p.value
  | .among => do membershipClause p.column (← p.requiredValues) false
  | .notAmong => do membershipClause p.column (← p.requiredValues) true
  | .null => basicClause p.column (.text "=") .null
  | .notNull => basicClause p.column (.text "!=") .null
  | .between => rangeClause p.column p.values p.negated.truthy
  | .nested => group
  | .raw =>
    if p.document.isNull then throw (Malformed.missingDocument p).fault else pure (.raw p.document)

/-- Which predicates of a list are joined by a disjunction. -/
def disjunctive : List Predicate → List Bool
  | p :: q :: ps => (p.isOr || q.isOr) :: q.isOr :: ps.map isOr
  | ps => ps.map isOr

/-- A clause under its connective; one that is alone and not disjunctive stays as it is. -/
def underConnective (several isOr : Bool) (c : Clause) : Clause :=
  if isOr then .any [c] else if several then .all [c] else c

/-- The clauses of a list under their connectives, in one document. -/
def assemble (connectives : List Bool) (cs : List Clause) : Clause :=
  (List.zipWith (underConnective (1 < cs.length)) connectives cs).foldl Clause.join (.document [])

mutual

def clause : Predicate → Except Fault Clause
  | ⟨kind, column, operator, value, values, connective, negated, group, document⟩ => do
    let p : Predicate :=
      ⟨kind, column, operator, value, values, connective, negated, group, document⟩
    let variant ← p.kind?
    let canonical ← p.canonical variant
    canonical.clauseOfKind ((clauses group).map (assemble (disjunctive group))) variant
termination_by structural p => p

def clauses : List Predicate → Except Fault (List Clause)
  | [] => pure []
  | p :: ps => do
    let c ← p.clause
    pure (c :: (← clauses ps))
termination_by structural ps => ps

end

end Predicate

def compile (ps : List Predicate) : Except Fault Clause :=
  (Predicate.clauses ps).map (Predicate.assemble (Predicate.disjunctive ps))

def compileFilter (ps : List Predicate) : Except Fault Entries := do
  (← compile ps).render

theorem Predicate.clause_eq (p : Predicate) :
    p.clause = p.kind?.bind fun variant => (p.canonical variant).bind fun canonical =>
      canonical.clauseOfKind (compile p.group) variant := by
  cases p
  rw [Predicate.clause]
  rfl

end DocQuery
