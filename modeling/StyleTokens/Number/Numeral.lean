import StyleTokens.Number.Binary64
import StyleTokens.Text.Ascii

/-!
# Numerals

Reading the text of a number: an integer of 64 bits, or a binary64 number from a
decimal with an optional point and exponent or from one of the special names.
-/

namespace StyleTokens
namespace Numeral

def sign : List Char -> Bool × List Char
  | '-' :: cs => (true, cs)
  | '+' :: cs => (false, cs)
  | cs => (false, cs)

def natural? (cs : List Char) : Option Nat :=
  if cs ≠ [] ∧ cs.all Char.isDigit then some (Text.decimalNumber cs) else none

def int64? (n : Int) : Option Int64 :=
  if Int64.minValue.toInt ≤ n ∧ n ≤ Int64.maxValue.toInt then some (Int64.ofInt n) else none

def integer? (cs : List Char) : Option Int64 :=
  let (negative, digits) := sign cs
  match natural? digits with
  | some n => int64? (if negative then -n else n)
  | none => none

def exponent? : List Char -> Option Int
  | [] => some 0
  | c :: cs =>
      if c = 'e' ∨ c = 'E' then
        let (negative, digits) := sign cs
        match natural? digits with
        | some n => some (if negative then -n else n)
        | none => none
      else none

def fraction : List Char -> List Char × List Char
  | '.' :: cs => (cs.takeWhile Char.isDigit, cs.dropWhile Char.isDigit)
  | cs => ([], cs)

/-- Read a decimal without sign.  There is a digit before or behind the point. -/
def decimal? (negative : Bool) (cs : List Char) : Option Binary64 :=
  let whole := cs.takeWhile Char.isDigit
  let (part, rest) := fraction (cs.dropWhile Char.isDigit)
  if whole = [] ∧ part = [] then none
  else
    match exponent? rest with
    | some e =>
        some (Binary64.ofDecimal negative (Text.decimalNumber (whole ++ part))
          (e - part.length))
    | none => none

def magnitude? (negative : Bool) (cs : List Char) : Option Binary64 :=
  let name := cs.map Char.toLower
  if name = ['n', 'a', 'n'] then some Binary64.nan
  else if name = ['i', 'n', 'f'] ∨ name = ['i', 'n', 'f', 'i', 'n', 'i', 't', 'y'] then
    some (Binary64.infinite negative)
  else decimal? negative cs

def binary64? (cs : List Char) : Option Binary64 :=
  let (negative, rest) := sign cs
  magnitude? negative rest

end Numeral
end StyleTokens
