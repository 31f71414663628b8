/-!
# Block comments

A block comment runs to the first closing mark, or to the end of the text.
-/

namespace StyleTokens
namespace Text

def readComment : List Char -> List Char × List Char
  | [] => ([], [])
  | '*' :: '/' :: cs => ([], cs)
  | c :: cs =>
      let found := readComment cs
      (c :: found.1, found.2)

def startsComment (input : List Char) : Bool :=
  ['/', '*'].isPrefixOf input

theorem readComment_suffix (cs : List Char) : (readComment cs).2 <:+ cs := by
  fun_induction readComment cs with
  | case1 => exact List.suffix_refl []
  | case2 cs => exact (List.suffix_cons '/' cs).trans (List.suffix_cons '*' _)
  | case3 c cs _ _ ih => exact ih.trans (List.suffix_cons c cs)

end Text
end StyleTokens
