import StyleTokens.Css.Escape
import StyleTokens.LexError

/-!
# Enclosed texts

Strings and unquoted addresses: texts that run to a closing character, with what
is wrong with them if they do not reach it.
-/

namespace StyleTokens
namespace Css

/-- A decoded text, what is wrong with it, and what follows it. -/
structure Enclosed where
  value : List Char
  error : Option LexError
  rest : List Char
  deriving DecidableEq, Repr

namespace Enclosed

def push (c : Char) (e : Enclosed) : Enclosed := { e with value := c :: e.value }

@[simp] theorem push_rest (c : Char) (e : Enclosed) : (e.push c).rest = e.rest := rfl

end Enclosed

/-!
## Strings
-/

/-- Read a string behind its opening quote.  An escaped line feed is left out; a
bare one ends the string and is not part of it. -/
def readString (quote : Char) (input : List Char) : Enclosed :=
  match input with
  | [] => ⟨[], some .openString, []⟩
  | c :: cs =>
      if c = '\n' then ⟨[], some .newlineInString, c :: cs⟩
      else if c = quote then ⟨[], none, cs⟩
      else if c = '\\' then
        match cs with
        | [] => ⟨[], some .openString, []⟩
        | d :: ds =>
            if d = '\n' then readString quote ds
            else (readString quote (readEscape (d :: ds)).2).push (readEscape (d :: ds)).1
      else (readString quote cs).push c
termination_by input.length
decreasing_by
  · simp only [List.length_cons]
    omega
  · exact Nat.lt_succ_of_le (readEscape_length_le (d :: ds))
  · exact Nat.lt_succ_self _

theorem readString_suffix (quote : Char) (cs : List Char) :
    (readString quote cs).rest <:+ cs := by
  fun_induction readString quote cs with
  | case1 => exact List.suffix_refl []
  | case2 cs => exact List.suffix_refl ('\n' :: cs)
  | case3 cs => exact List.suffix_cons _ cs
  | case4 => exact List.nil_suffix
  | case5 ds _ _ ih => exact ih.trans ((List.suffix_cons _ ds).trans (List.suffix_cons _ _))
  | case6 d ds _ _ _ ih =>
      exact (ih.trans (readEscape_suffix (d :: ds))).trans (List.suffix_cons _ (d :: ds))
  | case7 c cs _ _ _ ih => exact ih.trans (List.suffix_cons c cs)

/-!
## Addresses
-/

def skipAddress (input : List Char) : List Char :=
  match input with
  | [] => []
  | c :: cs =>
      if c = ')' then cs
      else if startsEscape (c :: cs) then skipAddress (readEscape cs).2
      else skipAddress cs
termination_by input.length
decreasing_by
  · exact Nat.lt_succ_of_le (readEscape_length_le cs)
  · exact Nat.lt_succ_self _

def isForbidden (c : Char) : Bool :=
  c == '"' || c == '\'' || c == '(' || isUnprintable c

/-- Read an address behind its leading blanks. -/
def readAddress (input : List Char) : Enclosed :=
  match input with
  | [] => ⟨[], some .openAddress, []⟩
  | c :: cs =>
      if c = ')' then ⟨[], none, cs⟩
      else if isBlank c then
        match cs.dropWhile isBlank with
        | [] => ⟨[], some .openAddress, []⟩
        | d :: ds =>
            if d = ')' then ⟨[], none, ds⟩
            else ⟨[], some (.addressCharacter c), skipAddress (d :: ds)⟩
      else if isForbidden c then ⟨[], some (.addressCharacter c), skipAddress cs⟩
      else if c = '\\' then
        if startsEscape (c :: cs) then (readAddress (readEscape cs).2).push (readEscape cs).1
        else ⟨[], some .escape, skipAddress cs⟩
      else (readAddress cs).push c
termination_by input.length
decreasing_by
  · exact Nat.lt_succ_of_le (readEscape_length_le cs)
  · exact Nat.lt_succ_self _

theorem skipAddress_suffix (cs : List Char) : skipAddress cs <:+ cs := by
  fun_induction skipAddress cs with
  | case1 => exact List.suffix_refl []
  | case2 cs => exact List.suffix_cons _ cs
  | case3 c cs _ _ ih => exact (ih.trans (readEscape_suffix cs)).trans (List.suffix_cons c cs)
  | case4 c cs _ _ ih => exact ih.trans (List.suffix_cons c cs)

theorem readAddress_suffix (cs : List Char) : (readAddress cs).rest <:+ cs := by
  fun_induction readAddress cs with
  | case1 => exact List.suffix_refl []
  | case2 cs => exact List.suffix_cons _ cs
  | case3 => exact List.nil_suffix
  | case4 c cs _ _ ds h =>
      exact ((List.suffix_cons _ ds).trans (h ▸ List.dropWhile_suffix _)).trans
        (List.suffix_cons c cs)
  | case5 c cs _ _ d ds h _ =>
      exact ((skipAddress_suffix (d :: ds)).trans (h ▸ List.dropWhile_suffix _)).trans
        (List.suffix_cons c cs)
  | case6 c cs => exact (skipAddress_suffix cs).trans (List.suffix_cons c cs)
  | case7 cs _ _ _ _ ih => exact (ih.trans (readEscape_suffix cs)).trans (List.suffix_cons _ cs)
  | case8 cs => exact (skipAddress_suffix cs).trans (List.suffix_cons _ cs)
  | case9 c cs _ _ _ _ ih => exact ih.trans (List.suffix_cons c cs)

end Css
end StyleTokens
