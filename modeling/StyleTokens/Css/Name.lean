import StyleTokens.Css.Escape

/-!
# Names

A name is a run of name characters and escapes.  It may not start with a digit,
nor with a hyphen that no name could go on from.
-/

namespace StyleTokens
namespace Css

def startsName : List Char -> Bool
  | '-' :: c :: cs => isNameStart c || c == '-' || startsEscape (c :: cs)
  | ['-'] => false
  | c :: cs => isNameStart c || startsEscape (c :: cs)
  | [] => false

/-- Read name characters and escapes as long as there are any. -/
def readName (input : List Char) : List Char × List Char :=
  match input with
  | [] => ([], [])
  | c :: cs =>
      if isNameChar c then
        let found := readName cs
        (c :: found.1, found.2)
      else if startsEscape (c :: cs) then
        let escaped := readEscape cs
        let found := readName escaped.2
        (escaped.1 :: found.1, found.2)
      else ([], c :: cs)
termination_by input.length
decreasing_by
  · exact Nat.lt_succ_self _
  · exact Nat.lt_succ_of_le (readEscape_length_le cs)

@[simp] theorem readName_nil : readName [] = ([], []) := by
  rw [readName]

theorem readName_cons (c : Char) (cs : List Char) :
    readName (c :: cs) =
      if isNameChar c then (c :: (readName cs).1, (readName cs).2)
      else if startsEscape (c :: cs) then
        ((readEscape cs).1 :: (readName (readEscape cs).2).1, (readName (readEscape cs).2).2)
      else ([], c :: cs) := by
  rw [readName]

theorem readName_suffix (cs : List Char) : (readName cs).2 <:+ cs := by
  fun_induction readName cs with
  | case1 => exact List.suffix_refl []
  | case2 c cs _ _ ih => exact ih.trans (List.suffix_cons c cs)
  | case3 c cs _ _ _ _ ih =>
      exact (ih.trans (readEscape_suffix cs)).trans (List.suffix_cons c cs)
  | case4 c cs => exact List.suffix_refl (c :: cs)

end Css
end StyleTokens
