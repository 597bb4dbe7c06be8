import DocQuery.Calendar
import DocQuery.Fault

/-!
# Views of values

A value read as a truth value, as text, as a sequence and as a mapping, and when two values are the
same key of a mapping: by `Value.sameKey_iff`, when they have the same `key` and it is equal to
itself. A value with what is not a number in it is the same key as none.
-/

namespace DocQuery.Value

/-- Empty texts and collections, zero and the null value count as false. -/
def truthy : Value → Bool
  | null => false
  | bool b => b
  | int n => n != 0
  | float x => !x.isZero
  | text s => !s.isEmpty
  | bytes bs => !bs.isEmpty
  | list vs | tuple vs => !vs.isEmpty
  | map es => !es.isEmpty
  | _ => true

/-- The text of a text or of a named constant. -/
def text? : Value → Option Text
  | text s => some s
  | member m => some m.text
  | _ => none

theorem text?_eq_some_iff {v : Value} {s : Text} :
    v.text? = some s ↔ v = text s ∨ ∃ m, v = member m ∧ m.text = s := by
  cases v <;> simp [text?]

def isText (v : Value) : Bool :=
  v.text?.isSome

def isNull : Value → Bool
  | null => true
  | _ => false

/-- The values in order: the keys of a mapping, the code points of a text, the octets of bytes. -/
def items : Value → Except Fault (List Value)
  | list vs | tuple vs => pure vs
  | map es => pure (es.map (·.1))
  | bytes bs => pure (bs.map fun b => int b.toNat)
  | text s => pure (s.map fun c => text [c])
  | member m => pure (m.text.map fun c => text [c])
  | _ => throw .wrongType

/-! ### Keys of mappings -/

mutual

/-- Whether the value can be a key: it holds no list, no mapping and no regular expression. -/
def isHashable : Value → Bool
  | list _ | map _ | regex _ _ => false
  | tuple vs => allHashable vs
  | _ => true
termination_by structural v => v

def allHashable : List Value → Bool
  | [] => true
  | v :: vs => v.isHashable && allHashable vs
termination_by structural vs => vs

end

mutual

/-- The representative of the values that are the same key: numbers go by their value, constants by
their text, times with an offset by their instant. -/
def key : Value → Value
  | bool b => int (if b then 1 else 0)
  | float x => match x.toInt? with
    | some n => int n
    | none => float x
  | member m => text m.text
  | list vs => list (keys vs)
  | tuple vs => tuple (keys vs)
  | dateTime t => dateTime t.toUtc
  | v => v
termination_by structural v => v

def keys : List Value → List Value
  | [] => []
  | v :: vs => v.key :: keys vs
termination_by structural vs => vs

end

mutual

/-- Whether the value is equal to itself. What is not a number is not, nor is a list with it. -/
def equalsItself : Value → Bool
  | float x => !x.isNaN
  | list vs | tuple vs => allEqualThemselves vs
  | _ => true
termination_by structural v => v

def allEqualThemselves : List Value → Bool
  | [] => true
  | v :: vs => v.equalsItself && allEqualThemselves vs
termination_by structural vs => vs

end

def sameKey (v w : Value) : Bool :=
  v.key == w.key && v.key.equalsItself

theorem sameKey_iff {v w : Value} :
    v.sameKey w = true ↔ v.key = w.key ∧ v.key.equalsItself = true := by
  simp [sameKey]

@[simp]
theorem sameKey_self (v : Value) : v.sameKey v = v.key.equalsItself := by
  simp [sameKey]

theorem sameKey_comm (v w : Value) : v.sameKey w = w.sameKey v := by
  rw [Bool.eq_iff_iff, sameKey_iff, sameKey_iff]
  constructor <;> rintro ⟨h, hv⟩ <;> exact ⟨h.symm, h ▸ hv⟩

@[simp]
theorem sameKey_text {s t : Text} : (text s).sameKey (text t) = (s == t) := by
  rw [Bool.eq_iff_iff, sameKey_iff]
  simp [key, equalsItself]

/-- The same key as one of two same keys is the same key as the other. -/
theorem sameKey_congr {u v : Value} (h : u.sameKey v = true) (w : Value) :
    u.sameKey w = v.sameKey w := by
  simp [sameKey, (sameKey_iff.mp h).1]

/-- Refuses what cannot be a key. -/
def checkHashable (v : Value) : Except Fault Unit :=
  if v.isHashable then pure () else throw .wrongType

end DocQuery.Value
