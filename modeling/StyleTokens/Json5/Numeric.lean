import StyleTokens.LexError
import StyleTokens.Number
import StyleTokens.Text.Replacement

/-!
# Numbers of data documents

A number is a sign and one of: a special name, hexadecimal digits behind `0x`, or
a decimal.  A decimal may lack the digits on one side of its point; they are
taken as a zero.
-/

namespace StyleTokens
namespace Json5

/-- The number that was read, or what is wrong with it, and what follows it. -/
structure Found where
  result : Except LexError Number
  rest : List Char

def withLeadingZero (spelled : List Char) : List Char :=
  let signed := Text.replaceAll ['+', '.'] ['+', '0', '.']
    (Text.replaceAll ['-', '.'] ['-', '0', '.'] spelled)
  if ['.'].isPrefixOf signed then '0' :: signed else signed

def withTrailingZero (spelled : List Char) : List Char :=
  if ['.'].isSuffixOf spelled then spelled ++ ['0']
  else Text.replaceAll ['.', 'e'] ['.', '0', 'e'] spelled

def withZeros (spelled : List Char) : List Char :=
  withTrailingZero (withLeadingZero spelled)

/-- The number of a decimal as it was spelled, with a small mark in front of its
exponent. -/
def valueOf (spelled : List Char) (whole : Bool) : Except LexError Number :=
  match Number.read? (withZeros spelled) whole with
  | some n => .ok n
  | none => .error (.unreadableNumber (String.ofList (withZeros spelled)))

def readExponent (text : List Char) (whole : Bool) (input : List Char) : Found :=
  match input with
  | [] => ⟨valueOf text whole, []⟩
  | e :: cs =>
      if e = 'e' ∨ e = 'E' then
        let signed := Text.splitSign cs
        let digits := signed.2.takeWhile Char.isDigit
        let rest := signed.2.dropWhile Char.isDigit
        if digits = [] then ⟨.error .exponentWithoutDigits, rest⟩
        else if rest.head? = some '.' then
          ⟨.error .pointInExponent, rest.dropWhile Text.isDigitOrPoint⟩
        else ⟨valueOf (text ++ ['e'] ++ signed.1 ++ digits) false, rest⟩
      else ⟨valueOf text whole, e :: cs⟩

def readDecimal (sign : List Char) (input : List Char) : Found :=
  let digits := input.takeWhile Char.isDigit
  match input.dropWhile Char.isDigit with
  | '.' :: cs =>
      let fraction := cs.takeWhile Char.isDigit
      let rest := cs.dropWhile Char.isDigit
      if rest.head? = some '.' then ⟨.error .manyPoints, rest.dropWhile Text.isDigitOrPoint⟩
      else if digits = [] ∧ fraction = [] then
        ⟨.error (.unreadableNumber (String.ofList (sign ++ ['.']))), rest⟩
      else readExponent (sign ++ digits ++ ['.'] ++ fraction) false rest
  | rest =>
      if digits = [] then ⟨.error (.unreadableNumber (String.ofList sign)), rest⟩
      else readExponent (sign ++ digits) true rest

/-- Read hexadecimal digits behind `0x`: an integer of 64 bits whose magnitude is
below `2 ^ 63`. -/
def readHexadecimal (sign : List Char) (input : List Char) : Found :=
  let digits := input.takeWhile Text.isHexDigit
  let rest := input.dropWhile Text.isHexDigit
  let value : Int := Text.hexNumber digits
  if digits = [] ∨ Int64.maxValue.toInt < value then
    ⟨.error (.unreadableNumber (String.ofList (sign ++ ['0', 'x'] ++ digits))), rest⟩
  else
    ⟨.ok (.integer (Int64.ofInt (if sign = ['-'] then -value else value))), rest⟩

def startsHexadecimal : List Char -> Bool
  | '0' :: 'x' :: _ => true
  | '0' :: 'X' :: _ => true
  | _ => false

def readNumber (input : List Char) : Found :=
  let signed := Text.splitSign input
  if "Infinity".toList.isPrefixOf signed.2 then
    ⟨.ok (.float (.infinite (signed.1 = ['-']))), signed.2.drop 8⟩
  else if "NaN".toList.isPrefixOf signed.2 then ⟨.ok (.float .nan), signed.2.drop 3⟩
  else if startsHexadecimal signed.2 then readHexadecimal signed.1 (signed.2.drop 2)
  else readDecimal signed.1 signed.2

/-!
## Decimals without a point
-/

theorem withLeadingZero_of_not_mem {cs : List Char} (h : '.' ∉ cs) : withLeadingZero cs = cs := by
  have hfront : ¬['.'].isPrefixOf cs = true := by
    rw [List.isPrefixOf_iff_prefix]
    exact fun hp => h (hp.subset List.mem_cons_self)
  simp only [withLeadingZero, Text.replaceAll_of_not_mem _ (show '.' ∈ ['-', '.'] by decide) h,
    Text.replaceAll_of_not_mem _ (show '.' ∈ ['+', '.'] by decide) h, if_neg hfront]

theorem withTrailingZero_of_not_mem {cs : List Char} (h : '.' ∉ cs) :
    withTrailingZero cs = cs := by
  have hend : ¬['.'].isSuffixOf cs = true := by
    rw [List.isSuffixOf_iff_suffix]
    exact fun hs => h (hs.subset List.mem_cons_self)
  rw [withTrailingZero, if_neg hend,
    Text.replaceAll_of_not_mem _ (show '.' ∈ ['.', 'e'] by decide) h]

theorem withZeros_of_not_mem {cs : List Char} (h : '.' ∉ cs) : withZeros cs = cs := by
  rw [withZeros, withLeadingZero_of_not_mem h, withTrailingZero_of_not_mem h]

/-!
## What is left
-/

theorem readExponent_suffix (text : List Char) (whole : Bool) (cs : List Char) :
    (readExponent text whole cs).rest <:+ cs := by
  cases cs with
  | nil => exact List.suffix_refl []
  | cons e cs =>
      have hdigits : (Text.splitSign cs).2.dropWhile Char.isDigit <:+ e :: cs :=
        ((List.dropWhile_suffix _).trans (Text.splitSign_suffix cs)).trans (List.suffix_cons e cs)
      simp only [readExponent]
      split
      · split
        · exact hdigits
        · split
          · exact (List.dropWhile_suffix _).trans hdigits
          · exact hdigits
      · exact List.suffix_refl (e :: cs)

theorem readDecimal_suffix (sign cs : List Char) : (readDecimal sign cs).rest <:+ cs := by
  have hdigits : cs.dropWhile Char.isDigit <:+ cs := List.dropWhile_suffix _
  simp only [readDecimal]
  split
  · rename_i rest h
    have hrest : rest.dropWhile Char.isDigit <:+ cs :=
      ((List.dropWhile_suffix _).trans (List.suffix_cons '.' rest)).trans (h ▸ hdigits)
    split
    · exact (List.dropWhile_suffix _).trans hrest
    · split
      · exact hrest
      · exact (readExponent_suffix _ _ _).trans hrest
  · split
    · exact hdigits
    · exact (readExponent_suffix _ _ _).trans hdigits

theorem readHexadecimal_suffix (sign cs : List Char) :
    (readHexadecimal sign cs).rest <:+ cs := by
  simp only [readHexadecimal]
  split
  · exact List.dropWhile_suffix _
  · exact List.dropWhile_suffix _

theorem readNumber_suffix (cs : List Char) : (readNumber cs).rest <:+ cs := by
  have hsign := Text.splitSign_suffix cs
  simp only [readNumber]
  split
  · exact (List.drop_suffix 8 _).trans hsign
  · split
    · exact (List.drop_suffix 3 _).trans hsign
    · split
      · exact ((readHexadecimal_suffix _ _).trans (List.drop_suffix 2 _)).trans hsign
      · exact (readDecimal_suffix _ _).trans hsign

end Json5
end StyleTokens
