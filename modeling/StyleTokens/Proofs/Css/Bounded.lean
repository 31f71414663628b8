import StyleTokens.Proofs.Css.Lexeme

/-!
# Reading up to a boundary

A closing brace or a semicolon stands in no lexical unit other than strings,
comments, addresses and escapes.  A text that ends with one of them is therefore
read alike with more text behind it, by every reader that leaves something of it.
This module goes up to names, strings, addresses and comments.
-/

namespace StyleTokens
namespace Css

/-!
## Bounded texts
-/

def isBoundary (c : Char) : Bool :=
  c == ';' || c == '\x7d'

/-- The text ends with a boundary. -/
inductive Bounded : List Char -> Prop where
  | last {c : Char} (h : isBoundary c = true) : Bounded [c]
  | cons {c : Char} {cs : List Char} (h : Bounded cs) : Bounded (c :: cs)

theorem not_of_isBoundary {p : Char -> Bool} (hp : ([';', '\x7d'].all fun c => !p c) = true)
    {c : Char} (hc : isBoundary c = true) : p c = false := by
  have hmem : c ∈ [';', '\x7d'] := by
    simpa [isBoundary] using hc
  simpa using List.all_eq_true.mp hp c hmem

theorem not_isBoundary_of {p : Char -> Bool} (hp : ([';', '\x7d'].all fun c => !p c) = true)
    {c : Char} (hc : p c = true) : isBoundary c = false := by
  rw [Bool.eq_false_iff]
  intro hboundary
  rw [not_of_isBoundary hp hboundary] at hc
  cases hc

theorem ne_of_isBoundary {c d : Char} (hd : isBoundary d = false) (hc : isBoundary c = true) :
    c ≠ d := by
  rintro rfl
  rw [hd] at hc
  cases hc

namespace Bounded

theorem head {cs : List Char} (h : Bounded cs) : exists c ds, cs = c :: ds := by
  cases h with
  | last => exact ⟨_, _, rfl⟩
  | cons => exact ⟨_, _, rfl⟩

theorem ne_nil {cs : List Char} (h : Bounded cs) : cs ≠ [] := by
  rcases h.head with ⟨c, ds, rfl⟩
  exact List.cons_ne_nil c ds

theorem tail {c : Char} {cs : List Char} (h : Bounded (c :: cs)) (hc : isBoundary c = false) :
    Bounded cs := by
  cases h with
  | last hlast =>
      rw [hc] at hlast
      cases hlast
  | cons h => exact h

theorem tail_of_ne_nil {c : Char} {cs : List Char} (h : Bounded (c :: cs)) (hcs : cs ≠ []) :
    Bounded cs := by
  cases h with
  | last => exact absurd rfl hcs
  | cons h => exact h

theorem of_suffix {a b : List Char} (h : Bounded b) (hab : a <:+ b) (ha : a ≠ []) :
    Bounded a := by
  induction h with
  | @last c hc =>
      rcases List.suffix_cons_iff.mp hab with rfl | hnil
      · exact .last hc
      · exact absurd (List.suffix_nil.mp hnil) ha
  | @cons c cs h ih =>
      rcases List.suffix_cons_iff.mp hab with rfl | htail
      · exact .cons h
      · exact ih htail

theorem append {b : List Char} (h : Bounded b) (a : List Char) : Bounded (a ++ b) := by
  induction a with
  | nil => exact h
  | cons c a ih => exact .cons ih

variable {p : Char -> Bool}

theorem dropWhile (hp : ([';', '\x7d'].all fun c => !p c) = true) {cs : List Char}
    (h : Bounded cs) : Bounded (cs.dropWhile p) := by
  induction h with
  | last hc =>
      rw [List.dropWhile_cons, if_neg (by simp [not_of_isBoundary hp hc])]
      exact .last hc
  | cons h ih =>
      rw [List.dropWhile_cons]
      split
      · exact ih
      · exact .cons h

theorem dropWhile_append (hp : ([';', '\x7d'].all fun c => !p c) = true) {cs : List Char}
    (h : Bounded cs) (x : List Char) : (cs ++ x).dropWhile p = cs.dropWhile p ++ x := by
  induction h with
  | last hc =>
      have hnot := not_of_isBoundary hp hc
      simp [hnot]
  | cons h ih =>
      rw [List.cons_append, List.dropWhile_cons, List.dropWhile_cons, ih]
      split <;> rfl

theorem takeWhile_append (hp : ([';', '\x7d'].all fun c => !p c) = true) {cs : List Char}
    (h : Bounded cs) (x : List Char) : (cs ++ x).takeWhile p = cs.takeWhile p := by
  induction h with
  | last hc =>
      have hnot := not_of_isBoundary hp hc
      simp [hnot]
  | cons h ih => rw [List.cons_append, List.takeWhile_cons, List.takeWhile_cons, ih]

theorem isPrefixOf_append {mark : List Char} (hmark : (mark.all fun c => !isBoundary c) = true)
    {cs : List Char} (h : Bounded cs) (x : List Char) :
    mark.isPrefixOf (cs ++ x) = mark.isPrefixOf cs := by
  induction mark generalizing cs with
  | nil => rfl
  | cons m mark ih =>
      rcases Bool.and_eq_true_iff.mp hmark with ⟨hm, hmarks⟩
      cases h with
      | last hc =>
          have hne : (m == _) = false :=
            beq_false_of_ne (Ne.symm (ne_of_isBoundary (by simpa using hm) hc))
          simp [List.isPrefixOf, hne]
      | cons h => simp [List.isPrefixOf, ih hmarks h]

end Bounded

/-!
## What starts a reader
-/

theorem startsDigit_append {cs : List Char} (h : Bounded cs) (x : List Char) :
    startsDigit (cs ++ x) = startsDigit cs := by
  rcases h.head with ⟨c, ds, rfl⟩
  rfl

theorem startsFraction_append {cs : List Char} (h : Bounded cs) (x : List Char) :
    startsFraction (cs ++ x) = startsFraction cs := by
  rcases h.head with ⟨c, ds, rfl⟩
  by_cases hc : c = '.'
  · subst hc
    exact startsDigit_append (h.tail (by decide)) x
  · rw [List.cons_append, startsFraction_of_ne hc, startsFraction_of_ne hc]

theorem startsNumber_append {cs : List Char} (h : Bounded cs) (x : List Char) :
    startsNumber (cs ++ x) = startsNumber cs := by
  rcases h.head with ⟨c, ds, rfl⟩
  have hfraction := startsFraction_append h x
  rw [List.cons_append] at hfraction
  rw [List.cons_append, startsNumber, startsNumber, hfraction]
  by_cases hsign : c = '+' ∨ c = '-'
  · have htail : Bounded ds := by
      refine h.tail ?_
      rcases hsign with rfl | rfl <;> decide
    rw [if_pos hsign, if_pos hsign, startsDigit_append htail, startsFraction_append htail]
  · rw [if_neg hsign, if_neg hsign]

theorem startsEscape_cons_cons (c d : Char) (cs ds : List Char) :
    startsEscape (c :: d :: cs) = startsEscape (c :: d :: ds) := by
  by_cases hc : c = '\\'
  · subst hc
    by_cases hd : d = '\n'
    · subst hd
      rfl
    · rw [startsEscape_backslash hd, startsEscape_backslash hd]
  · rw [startsEscape_of_ne hc, startsEscape_of_ne hc]

theorem startsEscape_append {cs : List Char} (h : Bounded cs) (x : List Char) :
    startsEscape (cs ++ x) = startsEscape cs := by
  rcases h.head with ⟨c, ds, rfl⟩
  by_cases hc : c = '\\'
  · subst hc
    rcases (h.tail (by decide)).head with ⟨d, es, rfl⟩
    exact startsEscape_cons_cons '\\' d _ _
  · rw [List.cons_append, startsEscape_of_ne hc, startsEscape_of_ne hc]

theorem startsName_append {cs : List Char} (h : Bounded cs) (x : List Char) :
    startsName (cs ++ x) = startsName cs := by
  rcases h.head with ⟨c, ds, rfl⟩
  by_cases hc : c = '-'
  · subst hc
    have htail := h.tail (by decide)
    rcases htail.head with ⟨d, es, rfl⟩
    have hescape := startsEscape_append htail x
    rw [List.cons_append] at hescape
    show (isNameStart d || d == '-' || startsEscape (d :: (es ++ x))) = _
    rw [hescape]
    rfl
  · have hescape := startsEscape_append h x
    rw [List.cons_append] at hescape
    rw [List.cons_append, startsName_of_ne hc, startsName_of_ne hc, hescape]

/-!
## Readers
-/

def Extends (read : List Char -> α × List Char) (input : List Char) : Prop :=
  forall x, read (input ++ x) = ((read input).1, (read input).2 ++ x)

def ExtendsEnclosed (read : List Char -> Enclosed) (input : List Char) : Prop :=
  forall x, read (input ++ x) = { read input with rest := (read input).rest ++ x }

theorem spanUpTo_append {p : Char -> Bool} (hp : ([';', '\x7d'].all fun c => !p c) = true)
    (n : Nat) {cs : List Char} (h : Bounded cs) :
    Extends (Text.spanUpTo p n) cs ∧ Bounded (Text.spanUpTo p n cs).2 := by
  induction n generalizing cs with
  | zero => exact ⟨fun x => rfl, h⟩
  | succ n ih =>
      rcases h.head with ⟨c, ds, rfl⟩
      cases hc : p c with
      | true =>
          rcases ih (h.tail (not_isBoundary_of hp hc)) with ⟨hread, hrest⟩
          constructor
          · intro x
            simp [Text.spanUpTo, hc, hread x]
          · simpa [Text.spanUpTo, hc] using hrest
      | false =>
          constructor
          · intro x
            simp [Text.spanUpTo, hc]
          · simpa [Text.spanUpTo, hc] using h

theorem dropBlank_append {cs : List Char} (h : Bounded cs) (x : List Char) :
    dropBlank (cs ++ x) = dropBlank cs ++ x := by
  rcases h.head with ⟨c, ds, rfl⟩
  rw [List.cons_append, dropBlank, dropBlank]
  split <;> rfl

theorem extends_readEscape {cs : List Char} (h : Bounded cs) : Extends readEscape cs := by
  intro x
  rcases h.head with ⟨c, ds, rfl⟩
  rw [List.cons_append, readEscape, readEscape]
  cases hc : Text.isHexDigit c with
  | true =>
      have hhex : ([';', '\x7d'].all fun c => !Text.isHexDigit c) = true := by decide
      rcases spanUpTo_append hhex 5 (h.tail (not_isBoundary_of hhex hc)) with ⟨hspan, hrest⟩
      simp [hspan x, dropBlank_append hrest]
  | false => rfl

theorem readName_append {cs : List Char} (h : Bounded cs) (hrest : (readName cs).2 ≠ []) :
    Extends readName cs := by
  intro x
  fun_induction readName cs with
  | case1 => exact absurd rfl h.ne_nil
  | case2 c cs hname found ih =>
      have hboundary : isBoundary c = false :=
        not_isBoundary_of (p := isNameChar) (by decide) hname
      rw [List.cons_append, readName_cons, if_pos hname, ih (h.tail hboundary) hrest]
  | case3 c cs hname hescape escaped found ih =>
      have hback := startsEscape_head hescape
      subst hback
      have htail : Bounded cs := h.tail (by decide)
      have hescape' : startsEscape ('\\' :: (cs ++ x)) = true := by
        rw [← List.cons_append, startsEscape_append h, hescape]
      have hread := extends_readEscape htail x
      have hafter : (readEscape cs).2 ≠ [] := by
        intro hnil
        apply hrest
        show (readName (readEscape cs).2).2 = []
        rw [hnil, readName_nil]
      have hbounded := htail.of_suffix (readEscape_suffix cs) hafter
      rw [List.cons_append, readName_cons, if_neg hname, if_pos hescape', hread,
        ih hbounded hrest]
  | case4 c cs hname hescape =>
      have hescape' : ¬startsEscape (c :: (cs ++ x)) = true := by
        rw [← List.cons_append, startsEscape_append h]
        exact hescape
      rw [List.cons_append, readName_cons, if_neg hname, if_neg hescape']

theorem readString_append (quote : Char) {cs : List Char} (h : Bounded cs)
    (hrest : (readString quote cs).rest ≠ []) : ExtendsEnclosed (readString quote) cs := by
  intro x
  fun_induction readString quote cs with
  | case1 => exact absurd rfl h.ne_nil
  | case2 cs =>
      rw [List.cons_append, readString.eq_def]
      rfl
  | case3 cs hline =>
      rw [List.cons_append, readString.eq_def]
      dsimp only
      rw [if_neg hline, if_pos rfl]
  | case4 hline hquote => exact absurd rfl hrest
  | case5 ds hline hquote ih =>
      have htail : Bounded ds := (h.tail (by decide)).tail (by decide)
      rw [List.cons_append, List.cons_append, readString.eq_def]
      dsimp only
      rw [if_neg hline, if_neg hquote, if_pos rfl, if_pos rfl]
      exact ih htail hrest
  | case6 d ds hline hquote hd ih =>
      have htail : Bounded (d :: ds) := h.tail (by decide)
      have hread := extends_readEscape htail x
      have hafter : (readEscape (d :: ds)).2 ≠ [] := by
        intro hnil
        apply hrest
        rw [Enclosed.push_rest, hnil, readString]
      have hbounded := htail.of_suffix (readEscape_suffix (d :: ds)) hafter
      rw [List.cons_append] at hread
      rw [List.cons_append, List.cons_append, readString.eq_def]
      dsimp only
      rw [if_neg hline, if_neg hquote, if_pos rfl, if_neg hd, hread, ih hbounded hrest]
      rfl
  | case7 c cs hline hquote hback ih =>
      have htail : Bounded cs := by
        refine h.tail_of_ne_nil ?_
        rintro rfl
        apply hrest
        rw [Enclosed.push_rest, readString]
      rw [List.cons_append, readString.eq_def]
      dsimp only
      rw [if_neg hline, if_neg hquote, if_neg hback, ih htail hrest]
      rfl

theorem skipAddress_append {cs : List Char} (h : Bounded cs) (hrest : skipAddress cs ≠ [])
    (x : List Char) : skipAddress (cs ++ x) = skipAddress cs ++ x := by
  fun_induction skipAddress cs with
  | case1 => exact absurd rfl h.ne_nil
  | case2 cs => rw [List.cons_append, skipAddress, if_pos rfl]
  | case3 c cs hclose hescape ih =>
      have hback := startsEscape_head hescape
      subst hback
      have htail : Bounded cs := h.tail (by decide)
      have hescape' : startsEscape ('\\' :: (cs ++ x)) = true := by
        rw [← List.cons_append, startsEscape_append h, hescape]
      have hafter : (readEscape cs).2 ≠ [] := by
        intro hnil
        apply hrest
        rw [hnil, skipAddress]
      have hbounded := htail.of_suffix (readEscape_suffix cs) hafter
      rw [List.cons_append, skipAddress, if_neg hclose, if_pos hescape',
        extends_readEscape htail x]
      exact ih hbounded hrest
  | case4 c cs hclose hescape ih =>
      have htail : Bounded cs := by
        refine h.tail_of_ne_nil ?_
        rintro rfl
        apply hrest
        rw [skipAddress]
      have hescape' : ¬startsEscape (c :: (cs ++ x)) = true := by
        rw [← List.cons_append, startsEscape_append h]
        exact hescape
      rw [List.cons_append, skipAddress, if_neg hclose, if_neg hescape']
      exact ih htail hrest

theorem readAddress_append {cs : List Char} (h : Bounded cs)
    (hrest : (readAddress cs).rest ≠ []) : ExtendsEnclosed readAddress cs := by
  intro x
  fun_induction readAddress cs with
  | case1 => exact absurd rfl h.ne_nil
  | case2 cs => rw [List.cons_append, readAddress.eq_2, if_pos rfl]
  | case3 => exact absurd rfl hrest
  | case4 c cs hclose hblank ds hdrop =>
      have htail : Bounded cs := h.tail (not_isBoundary_of (p := isBlank) (by decide) hblank)
      have hdrop' : (cs ++ x).dropWhile isBlank = ')' :: (ds ++ x) := by
        rw [htail.dropWhile_append (by decide), hdrop]
        rfl
      rw [List.cons_append, readAddress.eq_2, if_neg hclose, if_pos hblank, hdrop']
      rfl
  | case5 c cs hclose hblank d ds hdrop hd =>
      have htail : Bounded cs := h.tail (not_isBoundary_of (p := isBlank) (by decide) hblank)
      have hbounded : Bounded (d :: ds) := by
        rw [← hdrop]
        exact htail.dropWhile (by decide)
      have hdrop' : (cs ++ x).dropWhile isBlank = d :: (ds ++ x) := by
        rw [htail.dropWhile_append (by decide), hdrop]
        rfl
      have hskip := skipAddress_append hbounded hrest x
      rw [List.cons_append] at hskip
      rw [List.cons_append, readAddress.eq_2, if_neg hclose, if_pos hblank, hdrop']
      dsimp only
      rw [if_neg hd, hskip]
  | case6 c cs hclose hblank hforbidden =>
      have htail : Bounded cs :=
        h.tail (not_isBoundary_of (p := isForbidden) (by decide) hforbidden)
      rw [List.cons_append, readAddress.eq_2, if_neg hclose, if_neg hblank, if_pos hforbidden,
        skipAddress_append htail hrest x]
  | case7 cs hclose hblank hforbidden hescape ih =>
      have htail : Bounded cs := h.tail (by decide)
      have hescape' : startsEscape ('\\' :: (cs ++ x)) = true := by
        rw [← List.cons_append, startsEscape_append h, hescape]
      have hafter : (readEscape cs).2 ≠ [] := by
        intro hnil
        apply hrest
        rw [Enclosed.push_rest, hnil, readAddress]
      have hbounded := htail.of_suffix (readEscape_suffix cs) hafter
      rw [List.cons_append, readAddress.eq_2, if_neg hclose, if_neg hblank, if_neg hforbidden,
        if_pos rfl, if_pos hescape', extends_readEscape htail x, ih hbounded hrest]
      rfl
  | case8 cs hclose hblank hforbidden hescape =>
      have htail : Bounded cs := h.tail (by decide)
      have hescape' : ¬startsEscape ('\\' :: (cs ++ x)) = true := by
        rw [← List.cons_append, startsEscape_append h]
        exact hescape
      rw [List.cons_append, readAddress.eq_2, if_neg hclose, if_neg hblank, if_neg hforbidden,
        if_pos rfl, if_neg hescape', skipAddress_append htail hrest x]
  | case9 c cs hclose hblank hforbidden hback ih =>
      have htail : Bounded cs := by
        refine h.tail_of_ne_nil ?_
        rintro rfl
        apply hrest
        rw [Enclosed.push_rest, readAddress]
      rw [List.cons_append, readAddress.eq_2, if_neg hclose, if_neg hblank, if_neg hforbidden,
        if_neg hback, ih htail hrest]
      rfl

theorem readComment_append {cs : List Char} (h : Bounded cs)
    (hrest : (Text.readComment cs).2 ≠ []) : Extends Text.readComment cs := by
  intro x
  fun_induction Text.readComment cs with
  | case1 => exact absurd rfl h.ne_nil
  | case2 cs => rfl
  | case3 c cs hmark found ih =>
      have htail : Bounded cs := by
        refine h.tail_of_ne_nil ?_
        rintro rfl
        exact hrest rfl
      rcases htail.head with ⟨d, ds, rfl⟩
      have hread := ih htail hrest
      rw [List.cons_append] at hread
      have hmark' : forall es, c = '*' -> d :: (ds ++ x) = '/' :: es -> False := by
        intro es hc heq
        rcases List.cons.inj heq with ⟨rfl, -⟩
        exact hmark ds hc rfl
      rw [List.cons_append, List.cons_append, Text.readComment.eq_3 _ _ hmark', hread]

end Css
end StyleTokens
