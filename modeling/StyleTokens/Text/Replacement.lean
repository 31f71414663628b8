/-!
# Replacements

Replacing every occurrence of one text in another.  Occurrences are looked for from the
front, and what stands in place of one is not looked at again.
-/

namespace StyleTokens
namespace Text

/-- The text with every occurrence of a pattern replaced.  The pattern is not empty. -/
def replaceAll (pattern replacement input : List Char) : List Char :=
  match input with
  | [] => []
  | c :: cs =>
      if pattern.isPrefixOf (c :: cs) then
        replacement ++ replaceAll pattern replacement (cs.drop (pattern.length - 1))
      else c :: replaceAll pattern replacement cs
termination_by input.length
decreasing_by
  · rw [List.length_drop, List.length_cons]
    omega
  · exact Nat.lt_succ_self _

section Pattern

variable {x : Char} {pattern : List Char} (replacement : List Char)

@[simp] theorem replaceAll_nil : replaceAll pattern replacement [] = [] := by
  rw [replaceAll]

theorem replaceAll_pattern (cs : List Char) :
    replaceAll (x :: pattern) replacement (x :: (pattern ++ cs)) =
      replacement ++ replaceAll (x :: pattern) replacement cs := by
  have hfront : (x :: pattern).isPrefixOf (x :: (pattern ++ cs)) = true := by
    rw [List.isPrefixOf_iff_prefix]
    exact ⟨cs, rfl⟩
  rw [replaceAll, if_pos hfront, List.length_cons, Nat.add_sub_cancel, List.drop_left]

theorem replaceAll_cons_of_ne {c : Char} (hc : c ≠ x) (cs : List Char) :
    replaceAll (x :: pattern) replacement (c :: cs) =
      c :: replaceAll (x :: pattern) replacement cs := by
  have hfront : ¬(x :: pattern).isPrefixOf (c :: cs) = true := by
    rw [List.isPrefixOf_iff_prefix, List.cons_prefix_cons]
    exact fun h => hc h.1.symm
  rw [replaceAll, if_neg hfront]

theorem replaceAll_cons_of_head {y : Char} {cs : List Char} (hcs : cs.head? ≠ some y) :
    replaceAll (x :: y :: pattern) replacement (x :: cs) =
      x :: replaceAll (x :: y :: pattern) replacement cs := by
  have hfront : ¬(x :: y :: pattern).isPrefixOf (x :: cs) = true := by
    rw [List.isPrefixOf_iff_prefix, List.cons_prefix_cons]
    rintro ⟨-, tail, rfl⟩
    exact hcs rfl
  rw [replaceAll, if_neg hfront]

theorem replaceAll_append_of_not_mem {a : List Char} (ha : x ∉ a) (cs : List Char) :
    replaceAll (x :: pattern) replacement (a ++ cs) =
      a ++ replaceAll (x :: pattern) replacement cs := by
  induction a with
  | nil => rfl
  | cons c a ih =>
      rw [List.mem_cons, not_or] at ha
      rw [List.cons_append, replaceAll_cons_of_ne replacement (Ne.symm ha.1), ih ha.2,
        List.cons_append]

end Pattern

theorem replaceAll_of_not_mem {pattern : List Char} (replacement : List Char) {d : Char}
    (hd : d ∈ pattern) {cs : List Char} (hcs : d ∉ cs) :
    replaceAll pattern replacement cs = cs := by
  induction cs with
  | nil => exact replaceAll_nil replacement
  | cons c cs ih =>
      have hfront : ¬pattern.isPrefixOf (c :: cs) = true := by
        rw [List.isPrefixOf_iff_prefix]
        exact fun h => hcs (h.subset hd)
      rw [replaceAll, if_neg hfront, ih fun h => hcs (List.mem_cons_of_mem c h)]

end Text
end StyleTokens
