import DocQuery.Text.Basic

/-!
# Named constants that stand for their text

A `Member` is a constant of one of three closed families: how predicates are joined, the variants of
a predicate, and the accumulator functions. Each is usable wherever its `text` is, and
`Kind.ofText?_eq_some_iff` says that a variant is found by its text and by nothing else.
-/

namespace DocQuery

/-- How a predicate joins its siblings. -/
inductive Connective where
  | and
  | or
deriving DecidableEq, Repr, Inhabited

inductive Kind where
  | basic
  | among
  | notAmong
  | null
  | notNull
  | between
  | nested
  | raw
deriving DecidableEq, Repr, Inhabited

/-- The functions that a grouping stage can accumulate. -/
inductive Accumulator where
  | sum
  | avg
  | min
  | max
  | count
deriving DecidableEq, Repr, Inhabited

/-- A named constant. -/
inductive Member where
  | connective (c : Connective)
  | kind (k : Kind)
  | accumulator (f : Accumulator)
deriving DecidableEq, Repr, Inhabited

namespace Kind

def text : Kind → Text
  | basic => "basic"
  | among => "in"
  | notAmong => "not_in"
  | null => "null"
  | notNull => "not_null"
  | between => "between"
  | nested => "nested"
  | raw => "raw"

def all : List Kind := [basic, among, notAmong, null, notNull, between, nested, raw]

def ofText? (s : Text) : Option Kind :=
  all.find? (·.text == s)

theorem ofText?_text (k : Kind) : ofText? k.text = some k := by
  cases k <;> decide

theorem ofText?_eq_some_iff {s : Text} {k : Kind} : ofText? s = some k ↔ s = k.text := by
  refine ⟨fun h => ?_, fun h => h ▸ ofText?_text k⟩
  have := List.find?_some h
  exact (beq_iff_eq.mp this).symm

def hasColumn : Kind → Bool
  | nested | raw => false
  | _ => true

end Kind

namespace Member

def text : Member → Text
  | connective .and => "and"
  | connective .or => "or"
  | kind k => k.text
  | accumulator .sum => "sum"
  | accumulator .avg => "avg"
  | accumulator .min => "min"
  | accumulator .max => "max"
  | accumulator .count => "count"

def all : List Member :=
  [.connective .and, .connective .or] ++ Kind.all.map .kind ++
    [Accumulator.sum, .avg, .min, .max, .count].map .accumulator

/-- The family and the name under which a constant is written. -/
def qualifiedName : Member → String
  | connective .and => "Boolean.AND"
  | connective .or => "Boolean.OR"
  | kind .basic => "PredicateType.BASIC"
  | kind .among => "PredicateType.IN"
  | kind .notAmong => "PredicateType.NOT_IN"
  | kind .null => "PredicateType.NULL"
  | kind .notNull => "PredicateType.NOT_NULL"
  | kind .between => "PredicateType.BETWEEN"
  | kind .nested => "PredicateType.NESTED"
  | kind .raw => "PredicateType.RAW"
  | accumulator .sum => "AggregateFunction.SUM"
  | accumulator .avg => "AggregateFunction.AVG"
  | accumulator .min => "AggregateFunction.MIN"
  | accumulator .max => "AggregateFunction.MAX"
  | accumulator .count => "AggregateFunction.COUNT"

def ofQualifiedName? (s : String) : Option Member :=
  all.find? (·.qualifiedName == s)

end Member

end DocQuery
