import DocQuery.Message
import DocQuery.Text.LowerCase
import DocQuery.Value.Canonical
import DocQuery.Value.View

/-!
# Making predicates, and their canonical form

There is one function for each kind of predicate; operands of membership and range tests are listed
once, when the predicate is made. Before a predicate is compiled its operator is brought into the
store's spelling, identifiers are recognised in the operands of identifier columns, and dates and
times become instants. `Predicate.canonical` does this and refuses a predicate without the column
that its kind needs.
-/

namespace DocQuery

/-- The spellings of the store that differ from the lower-case ones. -/
def operatorSpellings : List (Text × Text) :=
  [("regexp", "regex"), ("elemmatch", "elemMatch"), ("geointersects", "geoIntersects"),
    ("geowithin", "geoWithin"), ("nearsphere", "nearSphere"), ("maxdistance", "maxDistance"),
    ("centersphere", "centerSphere"), ("uniquedocs", "uniqueDocs")]

def operatorSpelling (s : Text) : Text :=
  let lowered := Text.lower s
  (operatorSpellings.lookup lowered).getD lowered

def lowerOctet (b : UInt8) : UInt8 :=
  if 0x41 ≤ b && b ≤ 0x5A then b + 0x20 else b

/-- An operator in the store's spelling; none stays none. -/
def canonicalOperator (operator : Value) : Except Fault Value :=
  match operator with
  | .null => pure .null
  | .bytes bs => pure (.bytes (bs.map lowerOctet))
  | _ => match operator.text? with
    | some s => pure (.text (operatorSpelling s))
    | none => throw .noSuchMember

/-- Whether a column holds identifiers: the primary one, or a nested one of that name. -/
def isIdColumn (column : Value) : Except Fault Bool :=
  if !column.truthy then pure false
  else match column with
    | .bytes _ => throw .wrongType
    | _ => match column.text? with
      | some s => pure (s == "_id" || List.isSuffixOf ("._id" : Text) s)
      | none => throw .noSuchMember

namespace Predicate

/-- The connective that a predicate has unless another is named. -/
def byAnd : Value := .member (.connective .and)

def byOr : Value := .member (.connective .or)

def ofKind (kind : Kind) (connective : Value) : Predicate :=
  { kind := .member (.kind kind), connective }

def basic (column operator value : Value) (connective : Value := byAnd) : Predicate :=
  { ofKind .basic connective with column, operator, value }

def among (column values : Value) (connective : Value := byAnd) (negated : Bool := false) :
    Except Fault Predicate := do
  let vs ← values.items
  pure { ofKind (if negated then .notAmong else .among) connective with column, values := .list vs }

def isNull (column : Value) (connective : Value := byAnd) (negated : Bool := false) : Predicate :=
  { ofKind (if negated then .notNull else .null) connective with column }

def between (column values : Value) (connective : Value := byAnd)
    (negated : Value := .bool false) : Except Fault Predicate := do
  let vs ← values.items
  pure { ofKind .between connective with column, values := .list vs, negated }

def nested (group : List Predicate) (connective : Value := byAnd) : Predicate :=
  { ofKind .nested connective with group }

def raw (document : Value) (connective : Value := byAnd) : Predicate :=
  { ofKind .raw connective with document }

def kind? (p : Predicate) : Except Fault Kind :=
  match p.kind.text?.bind Kind.ofText? with
  | some kind => pure kind
  | none => throw (Malformed.unknownKind p.kind).fault

/-- Whether the predicate is joined by a disjunction. A connective is declared to be a text or a
constant; no other value is one. -/
def isOr (p : Predicate) : Bool :=
  match p.connective.text? with
  | some s => Text.lower s == "or"
  | none => false

/-- The single operand: an identifier column's is an identifier, unless a list of operands is. -/
def canonicalValue (p : Predicate) (isId : Bool) : Except Fault Value :=
  (if isId && p.values.isNull then p.value.withIdentifiers else p.value).asInstant

/-- The listed operands with identifiers recognised. -/
def identifiedValues (p : Predicate) (isId : Bool) : Except Fault Value :=
  if isId && !p.values.isNull then do
    pure (.list ((← p.values.items).map Value.withIdentifiers))
  else pure p.values

/-- Operands are listed anew unless there are none. -/
def instantValues (values : Value) : Except Fault Value :=
  if values.truthy then do
    pure (.list (← (← values.items).mapM Value.asInstant))
  else pure values

def canonical (p : Predicate) (kind : Kind) : Except Fault Predicate := do
  if kind.hasColumn && !p.column.truthy then throw (Malformed.missingColumn p).fault
  let operator ← canonicalOperator p.operator
  let isId ← isIdColumn p.column
  let identified ← p.identifiedValues isId
  let value ← p.canonicalValue isId
  let values ← instantValues identified
  pure { p with operator, value, values }

end Predicate

end DocQuery
