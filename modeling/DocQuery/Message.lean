import DocQuery.Value.Written

/-!
# Texts of faults

The causes that the library itself finds have a text; a fault of the store keeps its own. The text
of a malformed predicate shows it with all of its fields, each under its name; where it cannot be
written, that is the fault instead (`Malformed.fault`).
-/

namespace DocQuery

namespace Predicate

def field (name : String) (v : List Char) : List Char :=
  name.toList ++ '=' :: v

/-- Parts between parentheses; one part alone is followed by a comma. -/
def parenthesized : List (List Char) → List Char
  | [part] => '(' :: part ++ [',', ')']
  | parts => '(' :: commaSeparated parts ++ [')']

mutual

def written : Predicate → Except Fault (List Char)
  | ⟨kind, column, operator, value, values, connective, negated, group, document⟩ => do
    pure <| callForm "Predicate"
      [field "type" (← kind.written), field "column" (← column.written),
        field "operator" (← operator.written), field "value" (← value.written),
        field "values" (← values.written), field "boolean" (← connective.written),
        field "negated" (← negated.written),
        field "predicates" (parenthesized (← writtenGroup group)),
        field "document" (← document.written)]
termination_by structural p => p

def writtenGroup : List Predicate → Except Fault (List (List Char))
  | [] => pure []
  | p :: ps => do
    let cs ← p.written
    pure (cs :: (← writtenGroup ps))
termination_by structural ps => ps

end

end Predicate

namespace Malformed

/-- What the text of the fault shows. -/
def shown : Malformed → Except Fault (List Char)
  | unknownKind kind => kind.written
  | missingColumn p | missingValues p | missingDocument p => p.written
  | badBounds _ values => values.written

def beginning : Malformed → String
  | unknownKind _ => "Unknown predicate type: "
  | missingColumn _ => "Predicate missing 'column': "
  | missingValues _ => "Predicate missing 'values': "
  | missingDocument _ => "Predicate missing 'document': "
  | badBounds negated _ =>
    (if negated then "not between" else "between") ++ " requires a list of two values, got "

def message (m : Malformed) : Except Fault String := do
  pure (m.beginning ++ String.ofList (← m.shown))

/-- The fault of what is malformed: that it is, if this can be said. -/
def fault (m : Malformed) : Fault :=
  match m.message with
  | .ok _ => .malformed m
  | .error fault => fault

end Malformed

def ConnectionFault.message : ConnectionFault → String
  | notConnected => "Not connected; call connect() first"
  | noDatabaseName => "Database name must be set on the connection"
  | driverMissing => "motor is required; install with motor>=3.3.0"
  | clientFailed reason => "Cannot create Motor client: " ++ reason

/-- The text of a fault, for the causes that have one. -/
def Fault.message? : Fault → Option String
  | malformed m => m.message.toOption
  | columnRequired function =>
    some ("Aggregate " ++ String.ofList (Text.quoted function) ++ " requires a column")
  | connection c => some c.message
  | raised e => some e.message
  | _ => none

end DocQuery
