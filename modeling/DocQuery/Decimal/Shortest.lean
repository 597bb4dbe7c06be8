import DocQuery.Decimal.Binary64
import DocQuery.Text.Digits

/-!
# Shortest decimal of a double-precision number

The digits of a finite number are the fewest that read back to it, and of those the nearest to it. A
`Layout` then says where positional notation ends and how the values that are no numbers are
written.
-/

namespace DocQuery.Decimal

/-- The number `digits * 10 ^ exponent`. -/
structure Scientific where
  digits : Nat
  exponent : Int
deriving DecidableEq, Repr, Inhabited

/-- The numbers that round to a finite number, with the number itself, over one denominator. -/
structure Interval where
  low : Nat
  value : Nat
  high : Nat
  den : Nat
  closed : Bool

/-- The interval reaches half way to each neighbour; the one below a power of two is nearer. -/
def interval (x : Binary64) : Interval :=
  let m := x.significand
  let below := if m = Nat.pow 2 52 && 1 < x.exponentField then 1 else 2
  let scale := Nat.pow 2 (x.power - 2).toNat
  { low := (4 * m - below) * scale
    value := 4 * m * scale
    high := (4 * m + 2) * scale
    den := Nat.pow 2 (2 - x.power).toNat
    closed := m % 2 == 0 }

namespace Interval

def contains (i : Interval) (n : Nat) (e : Int) : Bool :=
  let num := n * Nat.pow 10 e.toNat * i.den
  let den := Nat.pow 10 (-e).toNat
  if i.closed then i.low * den ≤ num && num ≤ i.high * den
  else i.low * den < num && num < i.high * den

/-- The number of digits before the point; zeros after the point count as negative. -/
def pointPosition (i : Interval) : Int :=
  if i.den ≤ i.value then (Text.decimal (i.value / i.den)).length
  else 1 - ((Text.decimal ((i.den - 1) / i.value)).length : Int)

/-- The nearer of the value's two neighbours among the multiples of `10 ^ e`, if one lies inside. -/
def onGrid (i : Interval) (e : Int) : Option Scientific :=
  let num := i.value * Nat.pow 10 (-e).toNat
  let den := i.den * Nat.pow 10 e.toNat
  let n := num / den
  let twice := 2 * (num % den)
  let upFirst := den < twice || (twice == den && n % 2 == 1)
  match i.contains n e, i.contains (n + 1) e with
  | true, true => some ⟨if upFirst then n + 1 else n, e⟩
  | true, false => some ⟨n, e⟩
  | false, true => some ⟨n + 1, e⟩
  | false, false => none

/-- Seventeen digits are always enough. -/
def shortest (i : Interval) : Scientific :=
  let point := i.pointPosition
  ((List.range' 1 17).findSome? fun (count : Nat) => i.onGrid (point - count)).getD ⟨0, 0⟩

end Interval

/-- The same number without zeros at the end of its digits, given a bound on how many there are. -/
def Scientific.stripZeros : Nat → Scientific → Scientific
  | 0, d => d
  | fuel + 1, d =>
    if d.digits ≠ 0 ∧ d.digits % 10 = 0 then stripZeros fuel ⟨d.digits / 10, d.exponent + 1⟩ else d

/-- The shortest decimal that reads back to a finite number other than zero. -/
def shortest (x : Binary64) : Scientific :=
  (interval x).shortest.stripZeros 20

structure Layout where
  /-- The least power of ten that is written positionally. -/
  positionalFrom : Int
  /-- The least power of ten above that which is not. -/
  positionalBelow : Int
  exponentWidth : Nat
  notANumber : String
  infinite : String

namespace Layout

def positional (ds : List Char) (point : Int) : List Char :=
  if point ≤ 0 then ['0', '.'] ++ List.replicate (-point).toNat '0' ++ ds
  else if ds.length ≤ point.toNat then
    ds ++ List.replicate (point.toNat - ds.length) '0' ++ ['.', '0']
  else ds.take point.toNat ++ '.' :: ds.drop point.toNat

def scientific (l : Layout) (ds : List Char) (power : Int) : List Char :=
  let fraction := if ds.length ≤ 1 then [] else '.' :: ds.drop 1
  let sign := if power < 0 then '-' else '+'
  ds.take 1 ++ fraction ++ 'e' :: sign :: Text.padded l.exponentWidth power.natAbs

def magnitude (l : Layout) (x : Binary64) : List Char :=
  if x.isZero then ['0', '.', '0']
  else
    let d := shortest x
    let ds := Text.decimal d.digits
    let point := ds.length + d.exponent
    if l.positionalFrom ≤ point - 1 ∧ point - 1 < l.positionalBelow then positional ds point
    else l.scientific ds (point - 1)

def write (l : Layout) (x : Binary64) : List Char :=
  if x.isNaN then l.notANumber.toList
  else
    let body := if x.isInfinite then l.infinite.toList else l.magnitude x
    if x.isNegative then '-' :: body else body

end Layout

end DocQuery.Decimal
