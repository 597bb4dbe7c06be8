import DocQuery.Value.View

/-!
# Arithmetic on values

What the library computes with values that callers give as numbers: a value as an integer, its
place relative to zero, its negative, and the offset of a page. A sequence in the place of a number
is repeated, which is no number either.
-/

namespace DocQuery.Value

/-- An integer or a double-precision number. -/
inductive Number where
  | int (n : Int)
  | real (x : Binary64)

/-- Truth values count as 0 and 1. -/
def number? : Value → Option Number
  | int n => some (.int n)
  | bool b => some (.int (if b then 1 else 0))
  | float x => some (.real x)
  | _ => none

def readInteger (s : Text) : Except Fault Int :=
  match (s.mapM CodePoint.char?).bind Text.readInt? with
  | some n => pure n
  | none => throw .badValue

/-- The value as an integer: a fraction is dropped, and text and bytes are read as numerals. -/
def toInteger : Value → Except Fault Int
  | int n => pure n
  | bool b => pure (if b then 1 else 0)
  | float x =>
    if x.isNaN then throw .badValue
    else if x.isInfinite then throw .outOfRange
    else pure x.truncate
  | text s => readInteger s
  | member m => readInteger m.text
  | bytes bs =>
    if bs.all (· < 0x80) then readInteger (bs.map fun b => Char.ofNat b.toNat)
    else throw .badValue
  | millis ms => pure ms
  | uuid s => pure (s.toList.foldl
      (fun n c => if Text.isHexDigit c then n * 16 + Text.hexValue c else n) 0 : Nat)
  | _ => throw .wrongType

/-- Where a value lies relative to zero. An instant is compared by its milliseconds, and the least
and the greatest key lie below and above every number. -/
def sign (v : Value) : Except Fault (Option Ordering) :=
  match v with
  | millis ms => pure (some (compare ms 0))
  | minKey => pure (some .lt)
  | maxKey => pure (some .gt)
  | _ => match v.number? with
    | some (.int n) => pure (some (compare n 0))
    | some (.real x) => pure x.sign?
    | none => throw .wrongType

/-- The number, or 0 if it is not above it. -/
def atLeastZero (v : Value) : Except Fault Value := do
  if (← v.sign) = some .gt then pure v else pure (int 0)

def isNonNegative (v : Value) : Except Fault Bool := do
  match ← v.sign with
  | some .lt | none => pure false
  | _ => pure true

/-- Minus one times the value: a sequence repeated a negative number of times is empty. -/
def negative : Value → Except Fault Value
  | int n => pure (int (-n))
  | bool b => pure (int (if b then -1 else 0))
  | float x => pure (float x.neg)
  | text _ | member _ => pure (text "")
  | bytes _ => pure (bytes [])
  | list _ => pure (list [])
  | tuple _ => pure (tuple [])
  | _ => throw .wrongType

def Number.pred : Number → Number
  | int n => int (n - 1)
  | real x => real x.pred

def Number.toReal : Number → Except Fault Binary64
  | int n => match Binary64.ofInt? n with
    | some x => pure x
    | none => throw .outOfRange
  | real x => pure x

def Number.mul : Number → Number → Except Fault Value
  | int a, int b => pure (Value.int (a * b))
  | a, b => do pure (float ((← a.toReal).mul (← b.toReal)))

/-- The octets that each code point of a text takes, by the widest one. -/
def characterWidth (s : Text) : Nat :=
  let widest := s.foldl (fun n c => max n c.toNat) 0
  if widest < 0x100 then 1 else if widest < 0x10000 then 2 else 4

/-- How many parts a sequence has, and the octets that each takes. -/
def sequenceSize? : Value → Option (Nat × Nat)
  | text s => some (s.length, characterWidth s)
  | member m => some (m.text.length, characterWidth m.text)
  | bytes bs => some (bs.length, 1)
  | list vs | tuple vs => some (vs.length, 8)
  | _ => none

def isCollection : Value → Bool
  | list _ | tuple _ => true
  | _ => false

/-- The octets that there is room for. -/
def maxOctets : Nat := Nat.pow 2 36

/-- Why a sequence of so many parts, repeated that many times, is no offset: the count or the length
cannot be told, there is no room for the parts, or a sequence is no number. -/
def repetitionFault (ofCollection : Bool) (parts width : Nat) (count : Int) : Fault :=
  let length := count.toNat * parts
  let limit := Nat.pow 2 63
  if count < -(limit : Int) ∨ limit ≤ count then .outOfRange
  else if limit ≤ length then (if ofCollection then .outOfMemory else .outOfRange)
  else if maxOctets < length * width then .outOfMemory
  else .wrongType

/-- How many rows come before a page: one less than its number times the rows of a page. -/
def pageOffset (page perPage : Value) : Except Fault Value :=
  match page.number?, perPage.number? with
  | some p, some n => p.pred.mul n
  | some p, none => match p.pred, perPage.sequenceSize? with
    | .int count, some (parts, width) =>
      throw (repetitionFault perPage.isCollection parts width count)
    | _, _ => throw .wrongType
  | none, _ => throw .wrongType

end DocQuery.Value
