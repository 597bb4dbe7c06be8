/-!
# Double-precision numbers

A `Binary64` is the word of a double-precision number. Its value is read off the word as a sign, a
significand and a power of two, and every operation works on that exact value and rounds once, to
the nearest number and to the even one of two. Powers are those of `Nat.pow`, so that a definition
means the same whether or not `^` is also the power of a monoid.
-/

namespace DocQuery

/-- A double-precision number, held as its word. -/
structure Binary64 where
  bits : UInt64
deriving DecidableEq, Repr, Inhabited

namespace Binary64

def isNegative (x : Binary64) : Bool :=
  x.bits.toNat / Nat.pow 2 63 == 1

def exponentField (x : Binary64) : Nat :=
  x.bits.toNat / Nat.pow 2 52 % Nat.pow 2 11

def fraction (x : Binary64) : Nat :=
  x.bits.toNat % Nat.pow 2 52

def isNaN (x : Binary64) : Bool :=
  x.exponentField == 2047 && x.fraction != 0

def isInfinite (x : Binary64) : Bool :=
  x.exponentField == 2047 && x.fraction == 0

/-- The `m` of the magnitude `m * 2 ^ q` of a finite number. -/
def significand (x : Binary64) : Nat :=
  if x.exponentField = 0 then x.fraction else Nat.pow 2 52 + x.fraction

/-- The `q` of the magnitude `m * 2 ^ q` of a finite number. -/
def power (x : Binary64) : Int :=
  (max x.exponentField 1 : Nat) - 1075

/-- Both zeros, and nothing else. -/
def isZero (x : Binary64) : Bool :=
  x.exponentField == 0 && x.fraction == 0

def ofFields (negative : Bool) (magnitude : Nat) : Binary64 :=
  ⟨UInt64.ofNat ((if negative then Nat.pow 2 63 else 0) + magnitude)⟩

def infinity (negative : Bool) : Binary64 :=
  ofFields negative (2047 * Nat.pow 2 52)

def nan : Binary64 :=
  ofFields false (2047 * Nat.pow 2 52 + Nat.pow 2 51)

/-- The quotient rounded to the nearest integer, a half to the even one. -/
def roundDiv (num den : Nat) : Nat :=
  let quotient := num / den
  let twice := 2 * (num % den)
  if twice < den then quotient
  else if twice = den then quotient + quotient % 2
  else quotient + 1

/-- The exponent of the greatest power of two that is at most `num / den`. -/
def floorLog2 (num den : Nat) : Int :=
  let e : Int := (num.log2 : Int) - den.log2
  if den * Nat.pow 2 e.toNat ≤ num * Nat.pow 2 (-e).toNat then e else e - 1

/-- The number nearest to `num / den` with the given sign; too large a quotient gives infinity. -/
def ofRatio (negative : Bool) (num den : Nat) : Binary64 :=
  if num = 0 then ofFields negative 0
  else
    let q := max (floorLog2 num den - 52) (-1074)
    let m := roundDiv (num * Nat.pow 2 (-q).toNat) (den * Nat.pow 2 q.toNat)
    let magnitude :=
      if m < Nat.pow 2 52 then m else (q + 1075).toNat * Nat.pow 2 52 + (m - Nat.pow 2 52)
    if magnitude ≥ 2047 * Nat.pow 2 52 then infinity negative else ofFields negative magnitude

/-- The number nearest to `digits * 10 ^ exponent`. -/
def ofDecimal (negative : Bool) (digits : Nat) (exponent : Int) : Binary64 :=
  ofRatio negative (digits * Nat.pow 10 exponent.toNat) (Nat.pow 10 (-exponent).toNat)

/-- The nearest number to an integer, if it is finite. -/
def ofInt? (n : Int) : Option Binary64 :=
  let x := ofRatio (n < 0) n.natAbs 1
  if x.isInfinite then none else some x

/-- A finite number as a signed numerator over a power of two. -/
def numerator (x : Binary64) : Int :=
  let magnitude := x.significand * Nat.pow 2 x.power.toNat
  if x.isNegative then -(magnitude : Int) else magnitude

def denominator (x : Binary64) : Nat :=
  Nat.pow 2 (-x.power).toNat

/-- The integer that a finite number has when its fraction is dropped. -/
def truncate (x : Binary64) : Int :=
  x.numerator.tdiv x.denominator

/-- The integer that a number equals, if it is one. -/
def toInt? (x : Binary64) : Option Int :=
  if x.exponentField = 2047 then none
  else if x.numerator % x.denominator = 0 then some (x.numerator / x.denominator)
  else none

/-- Where a number lies relative to zero; not a number lies nowhere. -/
def sign? (x : Binary64) : Option Ordering :=
  if x.isNaN then none
  else if x.isZero then some .eq
  else if x.isNegative then some .lt
  else some .gt

def neg (x : Binary64) : Binary64 :=
  if x.isNaN then x
  else ofFields (!x.isNegative) (x.bits.toNat % Nat.pow 2 63)

def mul (x y : Binary64) : Binary64 :=
  let negative := x.isNegative != y.isNegative
  if x.isNaN || y.isNaN then nan
  else if x.isInfinite || y.isInfinite then
    if x.isZero || y.isZero then nan else infinity negative
  else
    ofRatio negative (x.numerator.natAbs * y.numerator.natAbs) (x.denominator * y.denominator)

/-- The number less one. -/
def pred (x : Binary64) : Binary64 :=
  if x.exponentField = 2047 then x
  else
    let num := x.numerator - x.denominator
    ofRatio (num < 0) num.natAbs x.denominator

end Binary64

end DocQuery
