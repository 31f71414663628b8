import StyleTokens.LexError
import StyleTokens.Text.Ascii

/-!
# String literals

A string literal runs to its quote.  Reading goes on behind an illegal escape,
which stays the first error of the literal.
-/

namespace StyleTokens
namespace Json5

/-- The decoded text of a literal, the first thing wrong with it, and what
follows it. -/
structure Literal where
  value : List Char
  error : Option LexError
  rest : List Char
  deriving DecidableEq, Repr

namespace Literal

def push (c : Char) (l : Literal) : Literal := { l with value := c :: l.value }

def fail (e : LexError) (l : Literal) : Literal := { l with error := some e }

end Literal

/-- Read the character that exactly `n` hexadecimal digits number.  The digits are
read even if no character has their number. -/
def readNumbered (n : Nat) (cs : List Char) : Option Char × List Char :=
  let digits := cs.take n
  if digits.length = n ∧ digits.all Text.isHexDigit then
    let value := Text.hexNumber digits
    (if value.isValidChar then some (Char.ofNat value) else none, cs.drop n)
  else (none, cs)

def readEscape (c : Char) (cs : List Char) : Option Char × List Char :=
  if c = 'b' then (some '\x08', cs)
  else if c = 'f' then (some '\x0C', cs)
  else if c = 'n' then (some '\n', cs)
  else if c = 'r' then (some '\r', cs)
  else if c = 't' then (some '\t', cs)
  else if c = 'v' then (some '\x0B', cs)
  else if c = '0' then (some '\x00', cs)
  else if c = 'x' then readNumbered 2 cs
  else if c = 'u' then readNumbered 4 cs
  else (some c, cs)

theorem readNumbered_suffix (n : Nat) (cs : List Char) : (readNumbered n cs).2 <:+ cs := by
  simp only [readNumbered]
  split
  · exact List.drop_suffix n cs
  · exact List.suffix_refl cs

theorem readEscape_suffix (c : Char) (cs : List Char) : (readEscape c cs).2 <:+ cs := by
  unfold readEscape
  repeat' split
  all_goals first
    | exact List.suffix_refl cs
    | exact readNumbered_suffix _ cs

/-- Read a literal behind its opening quote.  An escaped line feed is left out; a
bare one ends the literal and is not part of it. -/
def readLiteral (quote : Char) (input : List Char) : Literal :=
  match input with
  | [] => ⟨[], some .openString, []⟩
  | c :: cs =>
      if c = '\n' then ⟨[], some .newlineInString, c :: cs⟩
      else if c = quote then ⟨[], none, cs⟩
      else if c = '\\' then
        match cs with
        | [] => ⟨[], some .openString, []⟩
        | d :: ds =>
            if d = '\n' then readLiteral quote ds
            else
              match (readEscape d ds).1 with
              | some decoded => (readLiteral quote (readEscape d ds).2).push decoded
              | none => (readLiteral quote (readEscape d ds).2).fail (.stringEscape d)
      else (readLiteral quote cs).push c
termination_by input.length
decreasing_by
  · simp only [List.length_cons]
    omega
  · have hle := (readEscape_suffix d ds).length_le
    simp only [List.length_cons]
    omega
  · have hle := (readEscape_suffix d ds).length_le
    simp only [List.length_cons]
    omega
  · exact Nat.lt_succ_self _

theorem readLiteral_suffix (quote : Char) (cs : List Char) :
    (readLiteral quote cs).rest <:+ cs := by
  have hskip : forall c d (ds : List Char), ds <:+ c :: d :: ds := fun c d ds =>
    (List.suffix_cons d ds).trans (List.suffix_cons c (d :: ds))
  fun_induction readLiteral quote cs with
  | case1 => exact List.suffix_refl []
  | case2 cs => exact List.suffix_refl ('\n' :: cs)
  | case3 cs => exact List.suffix_cons _ cs
  | case4 => exact List.nil_suffix
  | case5 ds _ _ ih => exact ih.trans (hskip _ _ ds)
  | case6 d ds _ _ _ _ _ ih => exact (ih.trans (readEscape_suffix d ds)).trans (hskip _ d ds)
  | case7 d ds _ _ _ _ ih => exact (ih.trans (readEscape_suffix d ds)).trans (hskip _ d ds)
  | case8 c cs _ _ _ ih => exact ih.trans (List.suffix_cons c cs)

end Json5
end StyleTokens
