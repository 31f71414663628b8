import StyleTokens.Css.Kinds
import StyleTokens.Css.Name
import StyleTokens.LexError

/-!
# Numeric tokens

A number is an optional sign, digits with an optional fraction, and an optional
exponent.  A name behind it is its unit.  What looks like a second point, or like
an exponent without digits, makes the token faulty.
-/

namespace StyleTokens
namespace Css

def startsDigit : List Char -> Bool
  | c :: _ => c.isDigit
  | [] => false

def startsFraction : List Char -> Bool
  | '.' :: cs => startsDigit cs
  | _ => false

def startsNumber : List Char -> Bool
  | c :: cs =>
      if c = '+' ∨ c = '-' then startsDigit cs || startsFraction cs
      else c.isDigit || startsFraction (c :: cs)
  | [] => false

/-- The text of a number in normal form, whether it is an integer, what is wrong
with it, and what follows it. -/
structure Numeral where
  text : List Char
  whole : Bool
  error : Option LexError
  rest : List Char
  deriving DecidableEq, Repr

def splitFraction (cs : List Char) : List Char × List Char :=
  if startsFraction cs then
    ('.' :: (cs.drop 1).takeWhile Char.isDigit, (cs.drop 1).dropWhile Char.isDigit)
  else ([], cs)

def readExponent (text : List Char) (whole : Bool) (input : List Char) : Numeral :=
  match input with
  | [] => ⟨text, whole, none, []⟩
  | e :: cs =>
      if e = 'e' ∨ e = 'E' then
        let signed := Text.splitSign cs
        if startsDigit signed.2 then
          let text := text ++ ['e'] ++ signed.1 ++ signed.2.takeWhile Char.isDigit
          let rest := signed.2.dropWhile Char.isDigit
          if startsFraction rest then
            ⟨text, false, some .pointInExponent, rest.dropWhile Text.isDigitOrPoint⟩
          else ⟨text, false, none, rest⟩
        else if signed.1 ≠ [] then
          ⟨text, whole, some .exponentWithoutDigits, signed.2.dropWhile Text.isDigitOrPoint⟩
        else ⟨text, whole, none, e :: cs⟩
      else ⟨text, whole, none, e :: cs⟩

/-- Read a number.  A missing integer part is a zero. -/
def readNumeral (input : List Char) : Numeral :=
  let signed := Text.splitSign input
  let digits := signed.2.takeWhile Char.isDigit
  let fraction := splitFraction (signed.2.dropWhile Char.isDigit)
  let text := signed.1 ++ (if digits = [] then ['0'] else digits) ++ fraction.1
  let whole := fraction.1.isEmpty
  if startsFraction fraction.2 then
    ⟨text, whole, some .manyPoints, fraction.2.dropWhile Text.isDigitOrPoint⟩
  else readExponent text whole fraction.2

/-- The token of a number with what follows it: a unit, a percent sign, or
neither. -/
def withUnit (n : Number) (rest : List Char) : Token × List Char :=
  if startsName rest then
    (.of dimension (.dimension n (String.ofList (readName rest).1)), (readName rest).2)
  else
    match rest with
    | [] => (.of number (.number n), [])
    | c :: cs =>
        if c = '%' then (.of percentage (.dimension n "%"), cs)
        else (.of number (.number n), c :: cs)

def readNumeric (input : List Char) : Token × List Char :=
  let numeral := readNumeral input
  let value := Number.read? numeral.text numeral.whole
  let found := withUnit (value.getD (.integer 0)) numeral.rest
  let error :=
    match numeral.error, value with
    | some e, _ => some e
    | none, some _ => none
    | none, none => some (.unreadableNumber (String.ofList numeral.text))
  match error with
  | some e => ((Token.of badNumber (.inner found.1)).withError e.message, found.2)
  | none => found

/-!
## What is left
-/

theorem splitFraction_suffix (cs : List Char) : (splitFraction cs).2 <:+ cs := by
  rw [splitFraction]
  split
  · exact (List.dropWhile_suffix _).trans (List.drop_suffix 1 cs)
  · exact List.suffix_refl cs

theorem readExponent_suffix (text : List Char) (whole : Bool) (cs : List Char) :
    (readExponent text whole cs).rest <:+ cs := by
  cases cs with
  | nil => exact List.suffix_refl []
  | cons e cs =>
      have hsign : (Text.splitSign cs).2 <:+ e :: cs :=
        (Text.splitSign_suffix cs).trans (List.suffix_cons e cs)
      simp only [readExponent]
      split
      · split
        · split
          · exact ((List.dropWhile_suffix _).trans (List.dropWhile_suffix _)).trans hsign
          · exact (List.dropWhile_suffix _).trans hsign
        · split
          · exact (List.dropWhile_suffix _).trans hsign
          · exact List.suffix_refl (e :: cs)
      · exact List.suffix_refl (e :: cs)

theorem readNumeral_suffix (cs : List Char) : (readNumeral cs).rest <:+ cs := by
  have hfraction :
      (splitFraction ((Text.splitSign cs).2.dropWhile Char.isDigit)).2 <:+ cs :=
    ((splitFraction_suffix _).trans (List.dropWhile_suffix _)).trans (Text.splitSign_suffix cs)
  simp only [readNumeral]
  split
  · exact (List.dropWhile_suffix _).trans hfraction
  · exact (readExponent_suffix _ _ _).trans hfraction

theorem withUnit_suffix (n : Number) (cs : List Char) : (withUnit n cs).2 <:+ cs := by
  unfold withUnit
  split
  · exact readName_suffix cs
  · cases cs with
    | nil => exact List.suffix_refl []
    | cons c cs =>
        dsimp only
        split
        · exact List.suffix_cons c cs
        · exact List.suffix_refl (c :: cs)

theorem readNumeric_suffix (cs : List Char) : (readNumeric cs).2 <:+ cs := by
  have hunit : forall n, (withUnit n (readNumeral cs).rest).2 <:+ cs := fun n =>
    (withUnit_suffix n _).trans (readNumeral_suffix cs)
  simp only [readNumeric]
  split
  · exact hunit _
  · exact hunit _

end Css
end StyleTokens
