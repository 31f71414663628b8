import StyleTokens.Proofs.Css.Bounded

/-!
# Passes that stop at a boundary

A pass over a text that ends with a boundary reads the same tokens when more text
stands behind, as long as it leaves something of the text.  No scanner looks past
the boundary to decide what it has in front of it.
-/

namespace StyleTokens
namespace Css

/-!
## Numbers
-/

theorem splitSign_append {cs : List Char} (h : Bounded cs) :
    Extends Text.splitSign cs ∧ Bounded (Text.splitSign cs).2 := by
  rcases h.head with ⟨c, ds, rfl⟩
  by_cases hc : c = '+' ∨ c = '-'
  · have htail : Bounded ds := by
      refine h.tail ?_
      rcases hc with rfl | rfl <;> decide
    constructor
    · intro x
      rw [List.cons_append, Text.splitSign, Text.splitSign, if_pos hc, if_pos hc]
    · rw [Text.splitSign, if_pos hc]
      exact htail
  · constructor
    · intro x
      rw [List.cons_append, Text.splitSign, Text.splitSign, if_neg hc, if_neg hc]
      rfl
    · rw [Text.splitSign, if_neg hc]
      exact h

theorem tail_of_startsFraction {cs : List Char} (h : Bounded cs)
    (hfraction : startsFraction cs = true) : exists ds, cs = '.' :: ds ∧ Bounded ds := by
  rcases h.head with ⟨c, ds, rfl⟩
  by_cases hc : c = '.'
  · subst hc
    exact ⟨ds, rfl, h.tail (by decide)⟩
  · rw [startsFraction_of_ne hc] at hfraction
    cases hfraction

theorem splitFraction_append {cs : List Char} (h : Bounded cs) :
    Extends splitFraction cs ∧ Bounded (splitFraction cs).2 := by
  cases hfraction : startsFraction cs with
  | true =>
      rcases tail_of_startsFraction h hfraction with ⟨ds, rfl, htail⟩
      constructor
      · intro x
        rw [splitFraction, startsFraction_append h, if_pos hfraction, splitFraction,
          if_pos hfraction]
        simp only [List.cons_append, List.drop_succ_cons, List.drop_zero,
          htail.takeWhile_append (p := Char.isDigit) (by decide),
          htail.dropWhile_append (p := Char.isDigit) (by decide)]
      · rw [splitFraction, if_pos hfraction]
        exact htail.dropWhile (by decide)
  | false =>
      constructor
      · intro x
        rw [splitFraction, startsFraction_append h, if_neg (by simp [hfraction]), splitFraction,
          if_neg (by simp [hfraction])]
      · rw [splitFraction, if_neg (by simp [hfraction])]
        exact h

/-- The reader of a number reads the same with more text behind the input, and
leaves the boundary. -/
def ExtendsNumeral (read : List Char -> Numeral) (input : List Char) : Prop :=
  (forall x, read (input ++ x) = { read input with rest := (read input).rest ++ x }) ∧
    Bounded (read input).rest

theorem readExponent_append (text : List Char) (whole : Bool) {cs : List Char}
    (h : Bounded cs) : ExtendsNumeral (readExponent text whole) cs := by
  rcases h.head with ⟨e, ds, rfl⟩
  by_cases he : e = 'e' ∨ e = 'E'
  · have htail : Bounded ds := by
      refine h.tail ?_
      rcases he with rfl | rfl <;> decide
    rcases splitSign_append htail with ⟨hsign, hsigned⟩
    have hdigits := hsigned.dropWhile (p := Char.isDigit) (by decide)
    have hpoints := hsigned.dropWhile (p := Text.isDigitOrPoint) (by decide)
    have hrest := hdigits.dropWhile (p := Text.isDigitOrPoint) (by decide)
    constructor
    · intro x
      simp only [List.cons_append, readExponent, if_pos he, hsign x, startsDigit_append hsigned,
        hsigned.takeWhile_append (p := Char.isDigit) (by decide),
        hsigned.dropWhile_append (p := Char.isDigit) (by decide),
        hsigned.dropWhile_append (p := Text.isDigitOrPoint) (by decide),
        startsFraction_append hdigits,
        hdigits.dropWhile_append (p := Text.isDigitOrPoint) (by decide)]
      split
      · split <;> rfl
      · split <;> rfl
    · simp only [readExponent, if_pos he]
      split
      · split
        · exact hrest
        · exact hdigits
      · split
        · exact hpoints
        · exact h
  · constructor
    · intro x
      simp only [List.cons_append, readExponent, if_neg he]
    · simp only [readExponent, if_neg he]
      exact h

theorem readNumeral_append {cs : List Char} (h : Bounded cs) :
    ExtendsNumeral readNumeral cs := by
  rcases splitSign_append h with ⟨hsign, hsigned⟩
  have hdigits := hsigned.dropWhile (p := Char.isDigit) (by decide)
  rcases splitFraction_append hdigits with ⟨hfraction, hrest⟩
  have hpoints := hrest.dropWhile (p := Text.isDigitOrPoint) (by decide)
  constructor
  · intro x
    simp only [readNumeral, hsign x, hsigned.takeWhile_append (p := Char.isDigit) (by decide),
      hsigned.dropWhile_append (p := Char.isDigit) (by decide), hfraction x,
      startsFraction_append hrest, hrest.dropWhile_append (p := Text.isDigitOrPoint) (by decide)]
    split
    · rfl
    · exact (readExponent_append _ _ hrest).1 x
  · simp only [readNumeral]
    split
    · exact hpoints
    · exact (readExponent_append _ _ hrest).2

theorem withUnit_append (n : Number) {cs : List Char} (h : Bounded cs)
    (hrest : (withUnit n cs).2 ≠ []) : Extends (withUnit n) cs := by
  intro x
  unfold withUnit at hrest ⊢
  rw [startsName_append h]
  cases hname : startsName cs with
  | true =>
      simp only [hname, if_true] at hrest ⊢
      rw [readName_append h hrest x]
  | false =>
      simp only [Bool.false_eq_true, if_false]
      rcases h.head with ⟨c, ds, rfl⟩
      rw [List.cons_append]
      dsimp only
      split <;> rfl

theorem readNumeric_append {cs : List Char} (h : Bounded cs)
    (hrest : (readNumeric cs).2 ≠ []) : Extends readNumeric cs := by
  intro x
  rcases readNumeral_append h with ⟨hread, hbounded⟩
  have hunit : (withUnit ((Number.read? (readNumeral cs).text (readNumeral cs).whole).getD
      (.integer 0)) (readNumeral cs).rest).2 ≠ [] := by
    simp only [readNumeric] at hrest
    split at hrest
    · exact hrest
    · exact hrest
  simp only [readNumeric, hread x, withUnit_append _ hbounded hunit x]
  split <;> rfl

/-!
## Names
-/

theorem startsQuote_append {cs : List Char} (h : Bounded cs) (x : List Char) :
    startsQuote (cs ++ x) = startsQuote cs := by
  rcases h.head with ⟨c, ds, rfl⟩
  rfl

theorem addressToken_append {cs : List Char} (h : Bounded cs)
    (hrest : (addressToken cs).2 ≠ []) : Extends addressToken cs := by
  intro x
  have hread : (readAddress (cs.dropWhile isBlank)).rest ≠ [] := by
    simp only [addressToken] at hrest
    split at hrest
    · exact hrest
    · exact hrest
  have hblanks := h.dropWhile (p := isBlank) (by decide)
  simp only [addressToken, h.dropWhile_append (p := isBlank) (by decide),
    readAddress_append hblanks hread x]
  split <;> rfl

theorem readNameLike_append {cs : List Char} (h : Bounded cs)
    (hrest : (readNameLike cs).2 ≠ []) : Extends readNameLike cs := by
  intro x
  cases hname : readName cs with
  | mk name rest =>
      have hne : rest ≠ [] := by
        rintro rfl
        rw [readNameLike_of_ident hname (by simp)] at hrest
        exact hrest rfl
      have hread : readName (cs ++ x) = (name, rest ++ x) := by
        rw [readName_append h (by rw [hname]; exact hne) x, hname]
      have hbounded : Bounded rest := by
        refine h.of_suffix ?_ hne
        simpa [hname] using readName_suffix cs
      rcases hbounded.head with ⟨d, ds, rfl⟩
      by_cases hopen : d = '('
      · subst hopen
        have htail : Bounded ds := hbounded.tail (by decide)
        have hquote : startsQuote ((ds ++ x).dropWhile isBlank) =
            startsQuote (ds.dropWhile isBlank) := by
          rw [htail.dropWhile_append (by decide), startsQuote_append (htail.dropWhile (by decide))]
        have hread' : readName (cs ++ x) = (name, '(' :: (ds ++ x)) := hread
        rw [readNameLike_of_open hname] at hrest ⊢
        rw [readNameLike_of_open hread', hquote]
        split
        · rename_i haddress
          rw [if_pos haddress] at hrest
          exact addressToken_append htail hrest x
        · rfl
      · have hopen' : some d ≠ some '(' := fun heq => hopen (Option.some.inj heq)
        rw [readNameLike_of_ident hname hopen', readNameLike_of_ident hread hopen']

/-!
## Scanners
-/

theorem extends_readDelim {cs : List Char} (h : Bounded cs) : Extends readDelim cs := by
  rcases h.head with ⟨c, ds, rfl⟩
  exact fun x => rfl

theorem extends_readBlanks {cs : List Char} (h : Bounded cs) : Extends readBlanks cs := by
  intro x
  rw [readBlanks, h.dropWhile_append (by decide)]
  rfl

theorem extends_readPunctuation {cs : List Char} (h : Bounded cs) :
    Extends readPunctuation cs := by
  rcases h.head with ⟨c, ds, rfl⟩
  exact fun x => rfl

theorem readNumberOrDelim_append {cs : List Char} (h : Bounded cs)
    (hrest : (readNumberOrDelim cs).2 ≠ []) : Extends readNumberOrDelim cs := by
  intro x
  rw [readNumberOrDelim] at hrest
  rw [readNumberOrDelim, readNumberOrDelim, startsNumber_append h]
  split
  · rename_i hnumber
    rw [if_pos hnumber] at hrest
    exact readNumeric_append h hrest x
  · exact extends_readDelim h x

theorem drop_append_of_isPrefixOf {mark cs : List Char} (h : mark.isPrefixOf cs = true)
    (x : List Char) : (cs ++ x).drop mark.length = cs.drop mark.length ++ x := by
  rcases List.isPrefixOf_iff_prefix.mp h with ⟨rest, rfl⟩
  rw [List.append_assoc, List.drop_left, List.drop_left]

theorem readHyphen_append {cs : List Char} (h : Bounded cs) (hrest : (readHyphen cs).2 ≠ []) :
    Extends readHyphen cs := by
  intro x
  have hmark : ['-', '-', '>'].isPrefixOf (cs ++ x) = ['-', '-', '>'].isPrefixOf cs :=
    h.isPrefixOf_append (by decide) x
  rw [readHyphen] at hrest
  rw [readHyphen, readHyphen, startsNumber_append h, hmark, startsName_append h]
  split
  · rename_i hnumber
    rw [if_pos hnumber] at hrest
    exact readNumeric_append h hrest x
  · rename_i hnumber
    rw [if_neg hnumber] at hrest
    split
    · rename_i hcdc
      exact Prod.ext rfl (drop_append_of_isPrefixOf hcdc x)
    · rename_i hcdc
      rw [if_neg hcdc] at hrest
      split
      · rename_i hname
        rw [if_pos hname] at hrest
        exact readNameLike_append h hrest x
      · exact extends_readDelim h x

theorem startsHashName_append {cs : List Char} (h : Bounded cs) (x : List Char) :
    startsHashName (cs ++ x) = startsHashName cs := by
  have hescape := startsEscape_append h x
  rcases h.head with ⟨c, ds, rfl⟩
  rw [List.cons_append] at hescape
  rw [List.cons_append, startsHashName, startsHashName, hescape]

theorem readHash_append {cs : List Char} (h : Bounded ('#' :: cs))
    (hrest : (readHash ('#' :: cs)).2 ≠ []) : Extends readHash ('#' :: cs) := by
  intro x
  have htail : Bounded cs := h.tail (by decide)
  simp only [readHash, List.cons_append, List.drop_succ_cons, List.drop_zero,
    startsHashName_append htail] at hrest ⊢
  split
  · rename_i hname
    rw [if_pos hname] at hrest
    rw [readName_append htail hrest x]
  · rfl

theorem readAt_append {cs : List Char} (h : Bounded ('@' :: cs))
    (hrest : (readAt ('@' :: cs)).2 ≠ []) : Extends readAt ('@' :: cs) := by
  intro x
  have htail : Bounded cs := h.tail (by decide)
  simp only [readAt, List.cons_append, List.drop_succ_cons, List.drop_zero,
    startsName_append htail] at hrest ⊢
  split
  · rename_i hname
    rw [if_pos hname] at hrest
    rw [readName_append htail hrest x]
  · rfl

theorem readBackslash_append {cs : List Char} (h : Bounded cs)
    (hrest : (readBackslash cs).2 ≠ []) : Extends readBackslash cs := by
  intro x
  rw [readBackslash] at hrest
  rw [readBackslash, readBackslash, startsName_append h]
  split
  · rename_i hname
    rw [if_pos hname] at hrest
    exact readNameLike_append h hrest x
  · rw [extends_readDelim h x]

theorem readQuoted_append {quote : Char} {cs : List Char} (h : Bounded cs)
    (hrest : (readQuoted (quote :: cs)).2 ≠ []) : Extends readQuoted (quote :: cs) := by
  intro x
  have hread : (readString quote cs).rest ≠ [] := by
    simp only [readQuoted] at hrest
    split at hrest
    · exact hrest
    · exact hrest
  rw [List.cons_append]
  simp only [readQuoted, readString_append quote h hread x]
  split <;> rfl

theorem extends_readLess {cs : List Char} (h : Bounded cs) : Extends readLess cs := by
  intro x
  have hmark : ['<', '!', '-', '-'].isPrefixOf (cs ++ x) = ['<', '!', '-', '-'].isPrefixOf cs :=
    h.isPrefixOf_append (by decide) x
  rw [readLess, readLess, hmark]
  split
  · rename_i hcdo
    exact Prod.ext rfl (drop_append_of_isPrefixOf hcdo x)
  · exact extends_readDelim h x

theorem claims_append {s : Scanner} (hs : s ∈ scanners) {c : Char} {cs : List Char}
    (h : Bounded (c :: cs)) (x : List Char) :
    s.claims (c :: (cs ++ x)) = s.claims (c :: cs) := by
  simp only [scanners, List.mem_cons, List.not_mem_nil, or_false] at hs
  rcases hs with
    rfl | rfl | rfl | rfl | rfl | rfl | rfl | rfl | rfl | hcomment | rfl | rfl | rfl
  case inr.inr.inr.inr.inr.inr.inr.inr.inr.inl =>
    subst hcomment
    show ['/', '*'].isPrefixOf (c :: cs ++ x) = ['/', '*'].isPrefixOf (c :: cs)
    exact h.isPrefixOf_append (by decide) x
  all_goals rfl

theorem scan_append {s : Scanner} (hs : s ∈ scanners) (o : Options) {c : Char}
    {cs : List Char} (hc : s.claims (c :: cs) = true) (h : Bounded (c :: cs))
    (hrest : (s.scan o (c :: cs)).rest ≠ []) (x : List Char) :
    (s.scan o (c :: (cs ++ x))).parts =
      ((s.scan o (c :: cs)).tokens, (s.scan o (c :: cs)).rest ++ x) := by
  have hread : forall {read : List Char -> Token × List Char}, Extends read (c :: cs) ->
      ([(read (c :: (cs ++ x))).1], (read (c :: (cs ++ x))).2) =
        ([(read (c :: cs)).1], (read (c :: cs)).2 ++ x) := by
    intro read hextends
    rw [← List.cons_append, hextends x]
  simp only [scanners, List.mem_cons, List.not_mem_nil, or_false] at hs
  rcases hs with rfl | rfl | rfl | rfl | rfl | rfl | rfl | rfl | rfl | rfl | rfl | rfl | rfl
  · exact hread (extends_readBlanks h)
  · exact hread (extends_readPunctuation h)
  · exact hread (readNumberOrDelim_append h hrest)
  · exact hread (readHyphen_append h hrest)
  · exact hread (readNumeric_append h hrest)
  · exact hread (readNumberOrDelim_append h hrest)
  · rcases (startsWith_cons cs).mp hc with rfl
    exact hread (readHash_append h hrest)
  · exact hread (readNameLike_append h hrest)
  · refine hread (readQuoted_append (h.tail ?_) hrest)
    rcases (startsQuote_cons cs).mp hc with rfl | rfl <;> decide
  · rcases startsComment_iff.mp hc with ⟨ds, hmark⟩
    rcases List.cons.inj hmark with ⟨rfl, rfl⟩
    have hinside : Bounded ds := (h.tail (by decide)).tail (by decide)
    have hcomment := readComment_append hinside hrest x
    show (if o.keepComments then [Token.ofText comment (Text.readComment (ds ++ x)).1] else [],
      (Text.readComment (ds ++ x)).2) = _
    rw [hcomment]
    rfl
  · exact hread (extends_readLess h)
  · rcases (startsWith_cons cs).mp hc with rfl
    exact hread (readAt_append h hrest)
  · exact hread (readBackslash_append h hrest)

theorem pass_append (o : Options) {c : Char} {cs : List Char} (h : Bounded (c :: cs))
    (hrest : (dialect.pass o c cs).rest ≠ []) (x : List Char) :
    (dialect.pass o c (cs ++ x)).parts =
      ((dialect.pass o c cs).tokens, (dialect.pass o c cs).rest ++ x) := by
  rcases claimed_or_unclaimed c cs with ⟨s, hs, hc⟩ | hnone
  · have hc' : s.claims (c :: (cs ++ x)) = true := by
      rw [claims_append hs h, hc]
    rcases Prod.mk.inj (pass_of_claims hs o hc) with ⟨htokens, hleft⟩
    rw [hleft] at hrest
    rw [pass_of_claims hs o hc', scan_append hs o hc h hrest, htokens, hleft]
  · have hnone' : forall s, s ∈ scanners -> s.claims (c :: (cs ++ x)) = false := by
      intro s hs
      rw [claims_append hs h, hnone s hs]
    rcases Prod.mk.inj (pass_of_unclaimed o hnone) with ⟨htokens, hleft⟩
    rw [pass_of_unclaimed o hnone', htokens, hleft]

end Css
end StyleTokens
