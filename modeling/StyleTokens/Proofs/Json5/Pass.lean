import StyleTokens.Json5.Dialect

/-!
# One pass over a data document

Every scanner of the dialect moves past the character that made it claim the text.
-/

namespace StyleTokens
namespace Json5

/-!
## Numbers
-/

theorem readDecimal_suffix_dropWhile (sign cs : List Char) :
    (readDecimal sign cs).rest <:+ cs.dropWhile Char.isDigit := by
  simp only [readDecimal]
  split
  · rename_i rest h
    rw [h]
    have hrest : rest.dropWhile Char.isDigit <:+ '.' :: rest :=
      (List.dropWhile_suffix _).trans (List.suffix_cons '.' rest)
    split
    · exact (List.dropWhile_suffix _).trans hrest
    · split
      · exact hrest
      · exact (readExponent_suffix _ _ _).trans hrest
  · split
    · exact List.suffix_refl _
    · exact readExponent_suffix _ _ _

theorem readDecimal_point_suffix (sign cs : List Char) :
    (readDecimal sign ('.' :: cs)).rest <:+ cs := by
  have hdigits : cs.dropWhile Char.isDigit <:+ cs := List.dropWhile_suffix _
  have hpoint : ('.' :: cs).dropWhile Char.isDigit = '.' :: cs := by
    rw [List.dropWhile_cons, if_neg (by decide)]
  simp only [readDecimal, hpoint]
  split
  · exact (List.dropWhile_suffix _).trans hdigits
  · split
    · exact hdigits
    · exact (readExponent_suffix _ _ _).trans hdigits

theorem readDecimal_suffix_tail (sign : List Char) {c : Char} {cs : List Char}
    (h : c = '.' ∨ c.isDigit = true) : (readDecimal sign (c :: cs)).rest <:+ cs := by
  rcases h with rfl | hdigit
  · exact readDecimal_point_suffix sign cs
  · have hsuffix := readDecimal_suffix_dropWhile sign (c :: cs)
    rw [List.dropWhile_cons, if_pos hdigit] at hsuffix
    exact hsuffix.trans (List.dropWhile_suffix _)

theorem readNumber_suffix_tail {c : Char} {cs : List Char}
    (h : startsNumber (c :: cs) = true) : (readNumber (c :: cs)).rest <:+ cs := by
  by_cases hsign : c = '+' ∨ c = '-'
  · -- the sign is taken, and whatever is read behind it leaves an end of what follows
    have hsplit : Text.splitSign (c :: cs) = ([c], cs) := by
      rw [Text.splitSign, if_pos hsign]
    simp only [readNumber, hsplit]
    split
    · exact List.drop_suffix 8 cs
    · split
      · exact List.drop_suffix 3 cs
      · split
        · exact (readHexadecimal_suffix _ _).trans (List.drop_suffix 2 cs)
        · exact readDecimal_suffix _ cs
  · have hsplit : Text.splitSign (c :: cs) = ([], c :: cs) := by
      rw [Text.splitSign, if_neg hsign]
    have hdecimal : c = '.' ∨ c.isDigit = true := by
      rcases not_or.mp hsign with ⟨hplus, hminus⟩
      simpa [startsNumber, hplus, hminus] using h
    simp only [readNumber, hsplit]
    split
    · exact List.drop_suffix 7 cs
    · split
      · exact List.drop_suffix 2 cs
      · split
        · exact (readHexadecimal_suffix _ _).trans (List.drop_suffix 1 cs)
        · exact readDecimal_suffix_tail _ hdecimal

/-!
## Scanners
-/

theorem skipComment_suffix_tail {c : Char} {cs : List Char}
    (h : (startsLineComment (c :: cs) || Text.startsComment (c :: cs)) = true) :
    skipComment (c :: cs) <:+ cs := by
  rw [skipComment]
  split
  · rename_i hline
    have hc : c = '/' := by
      rw [startsLineComment, List.isPrefixOf_iff_prefix] at hline
      exact (List.cons_prefix_cons.mp hline).1.symm
    subst hc
    rw [List.dropWhile_cons, if_pos (by decide)]
    exact List.dropWhile_suffix _
  · exact (Text.readComment_suffix _).trans (List.drop_suffix 1 cs)

theorem dropWhile_suffix_tail {p : Char -> Bool} {c : Char} (h : p c = true) (cs : List Char) :
    (c :: cs).dropWhile p <:+ cs := by
  rw [List.dropWhile_cons, if_pos h]
  exact List.dropWhile_suffix _

theorem scan_suffix_tail {s : Scanner} (hs : s ∈ dialect.scanners) (o : Options) {c : Char}
    {cs : List Char} (hc : s.claims (c :: cs) = true) : (s.scan o (c :: cs)).rest <:+ cs := by
  simp only [dialect, List.mem_cons, List.not_mem_nil, or_false] at hs
  rcases hs with rfl | rfl | rfl | rfl | rfl | rfl | rfl
  · exact dropWhile_suffix_tail hc cs
  · exact List.suffix_refl cs
  · exact List.suffix_refl cs
  · exact skipComment_suffix_tail hc
  · show (readString (c :: cs)).2 <:+ cs
    simp only [readString]
    split
    · exact readLiteral_suffix c cs
    · exact readLiteral_suffix c cs
  · show (readNumeric (c :: cs)).2 <:+ cs
    simp only [readNumeric]
    split
    · exact readNumber_suffix_tail hc
    · exact readNumber_suffix_tail hc
  · have hword : isWordChar c = true := by
      rw [isWordChar, show isWordStart c = true from hc, Bool.true_or]
    exact dropWhile_suffix_tail hword cs

end Json5
end StyleTokens
