import StyleTokens.Css.Character
import StyleTokens.Text.Ascii

/-!
# Escapes

A backslash gives the character behind it, or the one that up to six hexadecimal
digits number.  One blank behind the digits belongs to the escape.
-/

namespace StyleTokens
namespace Css

def replacement : Char := '\uFFFD'

/-- Does an escape start here: a backslash that no line feed follows? -/
def startsEscape : List Char -> Bool
  | '\\' :: '\n' :: _ => false
  | '\\' :: _ => true
  | _ => false

/-- The character of a number, unless it is zero or no character has it. -/
def numbered (n : Nat) : Char :=
  if n ≠ 0 ∧ n.isValidChar then Char.ofNat n else replacement

def dropBlank : List Char -> List Char
  | c :: cs => if isBlank c then cs else c :: cs
  | [] => []

def readEscape : List Char -> Char × List Char
  | [] => (replacement, [])
  | c :: cs =>
      if Text.isHexDigit c then
        let found := Text.spanUpTo Text.isHexDigit 5 cs
        (numbered (Text.hexNumber (c :: found.1)), dropBlank found.2)
      else (c, cs)

theorem dropBlank_suffix (cs : List Char) : dropBlank cs <:+ cs := by
  cases cs with
  | nil => exact List.suffix_refl []
  | cons c cs =>
      rw [dropBlank]
      split
      · exact List.suffix_cons c cs
      · exact List.suffix_refl (c :: cs)

theorem readEscape_cons_suffix (c : Char) (cs : List Char) :
    (readEscape (c :: cs)).2 <:+ cs := by
  rw [readEscape]
  split
  · exact (dropBlank_suffix _).trans (Text.spanUpTo_snd_suffix _ _ _)
  · exact List.suffix_refl cs

theorem readEscape_suffix (cs : List Char) : (readEscape cs).2 <:+ cs := by
  cases cs with
  | nil => exact List.suffix_refl []
  | cons c cs => exact (readEscape_cons_suffix c cs).trans (List.suffix_cons c cs)

theorem readEscape_length_le (cs : List Char) : (readEscape cs).2.length ≤ cs.length :=
  (readEscape_suffix cs).length_le

end Css
end StyleTokens
