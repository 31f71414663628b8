/-!
# Binary floating point

The numbers of the binary64 format: not-a-number, two infinities, and the
products of a significand below `2 ^ 53` with a power of two.  A ratio of natural
numbers has one nearest such number, a tie going to the even significand; no
other arithmetic is needed to read, compare and print them.
-/

namespace StyleTokens

/-- A binary64 number.  A finite one is `significand * 2 ^ exponent`, negated if
asked; its exponent is the least one that the format allows for it. -/
inductive Binary64 where
  | nan
  | infinite (negative : Bool)
  | finite (negative : Bool) (significand : Nat) (exponent : Int)
  deriving DecidableEq, Repr

namespace Binary64

def minExponent : Int := -1074

def maxExponent : Int := 971

def zero (negative : Bool) : Binary64 :=
  finite negative 0 minExponent

/-!
## Rounding a ratio
-/

/-- The natural number nearest to a ratio, the even one of two. -/
def roundEven (num den : Nat) : Nat :=
  let whole := num / den
  let twice := 2 * (num % den)
  if twice < den || (twice == den && whole % 2 == 0) then whole else whole + 1

def scaled (num den : Nat) (power : Int) : Nat × Nat :=
  if power < 0 then (num, den * Nat.pow 2 power.natAbs)
  else (num * Nat.pow 2 power.natAbs, den)

def leadingExponent (num den : Nat) : Int :=
  let guess := (num.log2 : Int) - (den.log2 : Int)
  let (n, d) := scaled num den (-guess)
  if d ≤ n then guess else guess - 1

/-- The number nearest to a ratio, with a sign. -/
def ofRatio (negative : Bool) (num den : Nat) : Binary64 :=
  if num = 0 then zero negative
  else
    let exponent := max (leadingExponent num den - 52) minExponent
    let (n, d) := scaled num den (-exponent)
    let significand := roundEven n d
    let (significand, exponent) :=
      if significand = Nat.pow 2 53 then (Nat.pow 2 52, exponent + 1)
      else (significand, exponent)
    if maxExponent < exponent then infinite negative
    else finite negative significand exponent

def ofInt (n : Int) : Binary64 :=
  ofRatio (n < 0) n.natAbs 1

/-- The number nearest to `digits * 10 ^ scale`, with a sign.  Far outside the
range of the format the answer is known without computing the power. -/
def ofDecimal (negative : Bool) (digits : Nat) (scale : Int) : Binary64 :=
  if digits = 0 then zero negative
  else
    let magnitude := ((Nat.toDigits 10 digits).length : Int) + scale
    if 310 < magnitude then infinite negative
    else if magnitude < -330 then zero negative
    else if scale < 0 then ofRatio negative digits (Nat.pow 10 scale.natAbs)
    else ofRatio negative (digits * Nat.pow 10 scale.natAbs) 1

/-!
## Comparison
-/

/-- Equality of values: not-a-number differs from itself and the two zeros
agree. -/
def same : Binary64 -> Binary64 -> Bool
  | nan, _ => false
  | _, nan => false
  | finite s m e, finite s' m' e' =>
      (m == 0 && m' == 0) || (s == s' && m == m' && e == e')
  | infinite s, infinite s' => s == s'
  | _, _ => false

def isFinite : Binary64 -> Bool
  | finite _ _ _ => true
  | _ => false

end Binary64

end StyleTokens
