import StyleTokens.Number.Binary64

/-!
# Shortest decimals

The fewest decimal digits that name a binary64 number, and its text from them.
A decimal names a number if it lies in the interval of values that round to it;
the interval holds its ends when the significand is even.
-/

namespace StyleTokens
namespace Binary64

/-- A decimal `digits * 10 ^ scale`. -/
structure Decimal where
  digits : Nat
  scale : Int
  deriving DecidableEq, Repr

/-- Is `a * 10 ^ k` at most `m * 2 ^ q`?  With `strict`, is it less? -/
def decimalBelow (strict : Bool) (a : Nat) (k : Int) (m : Nat) (q : Int) : Bool :=
  let left := a * (if k < 0 then 1 else Nat.pow 10 k.natAbs) *
    (if q < 0 then Nat.pow 2 q.natAbs else 1)
  let right := m * (if k < 0 then Nat.pow 10 k.natAbs else 1) *
    (if q < 0 then 1 else Nat.pow 2 q.natAbs)
  if strict then left < right else left ≤ right

/-- The values that round to a positive number, in quarters of its last place. -/
structure Interval where
  low : Nat
  middle : Nat
  high : Nat
  exponent : Int
  closed : Bool

/-- The interval of `m * 2 ^ q`.  Below a power of two the neighbour is half as
far away. -/
def interval (m : Nat) (q : Int) : Interval :=
  { low := if m = Nat.pow 2 52 then 4 * m - 1 else 4 * m - 2
    middle := 4 * m
    high := 4 * m + 2
    exponent := q - 2
    closed := m % 2 == 0 }

def Interval.holds (i : Interval) (a : Nat) (k : Int) : Bool :=
  !decimalBelow i.closed a k i.low i.exponent &&
    decimalBelow (!i.closed) a k i.high i.exponent

/-- The greatest multiple of `10 ^ k` that is at most the middle, counted in
`10 ^ k`. -/
def Interval.floor (i : Interval) (k : Int) : Nat :=
  let num := i.middle * (if k < 0 then Nat.pow 10 k.natAbs else 1) *
    (if i.exponent < 0 then 1 else Nat.pow 2 i.exponent.natAbs)
  let den := (if k < 0 then 1 else Nat.pow 10 k.natAbs) *
    (if i.exponent < 0 then Nat.pow 2 i.exponent.natAbs else 1)
  num / den

/-- The decimal on the grid of `10 ^ k` that names the number, if there is one:
of the two neighbours of the middle the nearer, the upper one of equally near
ones. -/
def Interval.onGrid? (i : Interval) (k : Int) : Option Decimal :=
  let below := i.floor k
  match i.holds below k, i.holds (below + 1) k with
  | true, true =>
      if decimalBelow false (2 * below + 1) k (2 * i.middle) i.exponent then
        some ⟨below + 1, k⟩
      else some ⟨below, k⟩
  | true, false => some ⟨below, k⟩
  | false, true => some ⟨below + 1, k⟩
  | false, false => none

def Interval.leadingPower (i : Interval) : Int :=
  let guess := ((i.middle.log2 : Int) + i.exponent) * 30103 / 100000
  if decimalBelow false 1 (guess + 1) i.middle i.exponent then guess + 1
  else if decimalBelow false 1 guess i.middle i.exponent then guess
  else guess - 1

def Decimal.normalize : Nat -> Decimal -> Decimal
  | 0, d => d
  | n + 1, d =>
      if d.digits ≠ 0 ∧ d.digits % 10 = 0 then
        normalize n ⟨d.digits / 10, d.scale + 1⟩
      else d

/-- Seventeen digits name every number; fewer are tried first. -/
def Interval.shortest (i : Interval) : Decimal :=
  let top := i.leadingPower
  let grids := (List.range 17).map fun n : Nat => top - (n : Int)
  ((grids.findSome? i.onGrid?).getD ⟨i.floor (top - 16), top - 16⟩).normalize 20

def shortest (m : Nat) (q : Int) : Decimal :=
  if m = 0 then ⟨0, 0⟩ else (interval m q).shortest

/-!
## Text
-/

/-- A decimal with a point inside or beside its digits; there is a digit on both
sides of the point.  The point stands after `place` digits. -/
def positional (ds : List Char) (place : Int) : List Char :=
  if place ≤ 0 then
    ['0', '.'] ++ List.replicate place.natAbs '0' ++ ds
  else if place.natAbs < ds.length then
    ds.take place.natAbs ++ ['.'] ++ ds.drop place.natAbs
  else ds ++ List.replicate (place.natAbs - ds.length) '0' ++ ['.', '0']

def scientific (ds : List Char) (place : Int) : List Char :=
  let mantissa :=
    match ds with
    | [] => []
    | [d] => [d]
    | d :: rest => d :: '.' :: rest
  mantissa ++ ['e'] ++ (toString (place - 1)).toList

/-- The text of a decimal: positional from `0.0001` to below `10 ^ 16`. -/
def Decimal.text (d : Decimal) : List Char :=
  if d.digits = 0 then ['0', '.', '0']
  else
    let ds := Nat.toDigits 10 d.digits
    let place := (ds.length : Int) + d.scale
    if -4 < place && place ≤ 16 then positional ds place else scientific ds place

def text : Binary64 -> String
  | nan => "NaN"
  | infinite negative => if negative then "-Infinity" else "Infinity"
  | finite negative m q =>
      String.ofList ((if negative then ['-'] else []) ++ (shortest m q).text)

end Binary64
end StyleTokens
