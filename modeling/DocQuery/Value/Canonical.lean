import DocQuery.Calendar
import DocQuery.Fault

/-!
# Canonical operands

Identifiers that are written as 24 hexadecimal digits become identifiers, and dates and times become
instants. `Value.allWithIdentifiers_eq_map` says that the first is done element by element.
-/

namespace DocQuery.Value

def isIdentifier (s : Text) : Bool :=
  s.length == 24 && s.all (·.is Text.isHexDigit)

mutual

/-- Turns the texts that write identifiers into identifiers, at any depth of lists and tuples. -/
def withIdentifiers : Value → Value
  | text s =>
    if isIdentifier s then objectId (String.ofList ((Text.chars s).map Char.toLower)) else text s
  | list vs => list (allWithIdentifiers vs)
  | tuple vs => tuple (allWithIdentifiers vs)
  | v => v
termination_by structural v => v

def allWithIdentifiers : List Value → List Value
  | [] => []
  | v :: vs => v.withIdentifiers :: allWithIdentifiers vs
termination_by structural vs => vs

end

theorem allWithIdentifiers_eq_map (vs : List Value) :
    allWithIdentifiers vs = vs.map withIdentifiers := by
  induction vs with
  | nil => rfl
  | cons v vs ih => rw [allWithIdentifiers, ih, List.map_cons]

mutual

/-- Identifiers are recognised once. -/
theorem withIdentifiers_withIdentifiers : ∀ v : Value,
    v.withIdentifiers.withIdentifiers = v.withIdentifiers
  | text s => by
    rw [withIdentifiers]
    split
    · rfl
    · next h => rw [withIdentifiers, if_neg h]
  | list vs => by
    rw [withIdentifiers, withIdentifiers, allWithIdentifiers_allWithIdentifiers vs]
  | tuple vs => by
    rw [withIdentifiers, withIdentifiers, allWithIdentifiers_allWithIdentifiers vs]
  | null | bool _ | int _ | float _ | member _ | bytes _ | map _ | objectId _ | millis _
  | dateTime _ | date _ | regex _ _ | compiled _ _ | uuid _ | timestamp _ _ | minKey | maxKey
  | missing => rfl

theorem allWithIdentifiers_allWithIdentifiers : ∀ vs : List Value,
    allWithIdentifiers (allWithIdentifiers vs) = allWithIdentifiers vs
  | [] => rfl
  | v :: vs => by
    rw [allWithIdentifiers, allWithIdentifiers, withIdentifiers_withIdentifiers v,
      allWithIdentifiers_allWithIdentifiers vs]

end

def millisPerDay : Int := 86400000

/-- Turns a date or a time into its instant; a date is its midnight in UTC. -/
def asInstant : Value → Except Fault Value
  | dateTime t => match t.millis? with
    | some ms => pure (millis ms)
    | none => throw .outOfRange
  | date d => pure (millis (d.dayNumber * millisPerDay))
  | v => pure v

end DocQuery.Value
