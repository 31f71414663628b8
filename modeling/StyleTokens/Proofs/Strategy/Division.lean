import Mathlib.Data.List.TakeWhile
import StyleTokens.Proofs.Strategy.Segments
import StyleTokens.Strategy.Pairing
import StyleTokens.Strategy.Primitive

/-!
# Where a delimiter divides a pair

The halves of a pair are read from the tokens in front of the first delimiter and from
those behind it, exactly if the delimiter is not skipped as a blank.  One that is skipped
is looked for again, so that the second half starts behind a later one, and what stands in
between is reported.
-/

namespace StyleTokens

namespace Queue

/-!
## The first token that passes a test
-/

theorem find?_eq_some {p : Predicate} {ts : List Token} {k : Nat} (h : find? p ts = some k) :
    exists t, ts[k]? = some t ∧ p t = true ∧ before p ts = ts.take k ∧
      onward p ts = t :: ts.drop (k + 1) := by
  induction ts generalizing k with
  | nil => cases h
  | cons u us ih =>
      rw [find?, List.findIdx?_cons] at h
      cases hu : p u with
      | true =>
          rw [if_pos hu] at h
          cases h
          refine ⟨u, rfl, hu, ?_, ?_⟩
          · exact before_cons_of_pos us hu
          · exact onward_cons_of_pos us hu
      | false =>
          rw [if_neg (by simp [hu])] at h
          rcases Option.map_eq_some_iff.mp h with ⟨i, hi, rfl⟩
          rcases ih hi with ⟨t, hget, ht, hbefore, honward⟩
          refine ⟨t, hget, ht, ?_, ?_⟩
          · rw [before_cons_of_neg us hu, List.take_succ_cons, hbefore]
          · rw [onward_cons_of_neg us hu]
            exact honward

theorem any_of_find? {p : Predicate} {ts : List Token} {k : Nat} (h : find? p ts = some k) :
    ts.any p = true := by
  rw [← List.findIdx?_isSome]
  exact Option.isSome_of_eq_some h

/-!
## Dividing
-/

/-- Does the delimiter at a place divide the run there?  It must not be skipped, unless
nothing is behind it but the end of the text. -/
def DividesAt (ts : List Token) (k : Nat) : Prop :=
  (exists t, ts[k]? = some t ∧ isSkipped t = false) ∨
    forall u, (ts.drop (k + 1)).head? = some u -> u.isEof = true ∧ isSkipped u = false

section Divide

variable {d : Predicate} {ts : List Token} {k : Nat}

theorem divide_front (h : find? d ts = some k) : (divide d ts).front = ts.take k := by
  rcases find?_eq_some h with ⟨t, _, _, hbefore, _⟩
  exact hbefore

theorem divide_of_not_isSkipped {t : Token} {us : List Token} (honward : onward d ts = t :: us)
    (ht : d t = true) (hskip : isSkipped t = false) :
    (divide d ts).strays = [] ∧ (divide d ts).rest = us := by
  have htail : skipBlank (onward d ts) = t :: us := by
    rw [honward, skipBlank_cons_of_neg us hskip]
  have hdivider : isDivider d t = true := by
    rw [isDivider, ht, Bool.true_or]
  constructor
  · show (before (isDivider d) (skipBlank (onward d ts))).filter _ = []
    rw [htail, before_cons_of_pos us hdivider]
    rfl
  · show dropIf d (onward (isDivider d) (skipBlank (onward d ts))) = us
    rw [htail, onward_cons_of_pos us hdivider, dropIf_cons_of_pos us ht]

theorem divide_of_isSkipped {t : Token} {us : List Token} (honward : onward d ts = t :: us)
    (hskip : isSkipped t = true) :
    (divide d ts).strays = (before (isDivider d) (skipBlank us)).filter Token.isSignificant ∧
      (divide d ts).rest = dropIf d (onward (isDivider d) (skipBlank us)) := by
  have htail : skipBlank (onward d ts) = skipBlank us := by
    rw [honward, skipBlank_cons_of_pos us hskip]
  constructor
  · show (before (isDivider d) (skipBlank (onward d ts))).filter _ = _
    rw [htail]
  · show dropIf d (onward (isDivider d) (skipBlank (onward d ts))) = _
    rw [htail]

theorem search_of_end (heof : forall t, t.isEof = true -> d t = false) {us : List Token}
    (h : forall u, us.head? = some u -> u.isEof = true ∧ isSkipped u = false) :
    before (isDivider d) (skipBlank us) = [] ∧
      dropIf d (onward (isDivider d) (skipBlank us)) = us := by
  cases us with
  | nil => exact ⟨rfl, rfl⟩
  | cons u us =>
      rcases h u rfl with ⟨hu, hskip⟩
      have hdivider : isDivider d u = true := by
        rw [isDivider, hu, Bool.or_true]
      have hd : d u = false := heof u hu
      rw [skipBlank_cons_of_neg us hskip]
      constructor
      · exact before_cons_of_pos us hdivider
      · rw [onward_cons_of_pos us hdivider, dropIf_cons_of_neg us hd]

theorem ne_cons_of_suffix {t : Token} {us vs : List Token} (h : vs <:+ us) : vs ≠ t :: us := by
  intro heq
  have hlength := h.length_le
  rw [heq, List.length_cons] at hlength
  omega

theorem end_of_search {us : List Token}
    (h : dropIf d (onward (isDivider d) (skipBlank us)) = us) :
    forall u, us.head? = some u -> u.isEof = true ∧ isSkipped u = false := by
  intro u hu
  rcases List.head?_eq_some_iff.mp hu with ⟨us, rfl⟩
  have hskip : isSkipped u = false := by
    by_contra hskip
    rw [skipBlank_cons_of_pos us (by simpa using hskip)] at h
    apply ne_cons_of_suffix _ h
    exact (dropIf_suffix _ _).trans ((onward_suffix _ _).trans (List.dropWhile_suffix _))
  rw [skipBlank_cons_of_neg us hskip] at h
  have hdivider : isDivider d u = true := by
    by_contra hdivider
    rw [onward_cons_of_neg us (by simpa using hdivider)] at h
    apply ne_cons_of_suffix _ h
    exact (dropIf_suffix _ _).trans (List.dropWhile_suffix _)
  rw [onward_cons_of_pos us hdivider] at h
  have hd : d u = false := by
    by_contra hd
    rw [dropIf_cons_of_pos us (by simpa using hd)] at h
    exact ne_cons_of_suffix (List.suffix_refl us) h
  rw [isDivider, hd, Bool.false_or] at hdivider
  exact ⟨hdivider, hskip⟩

/-- The tokens around the first delimiter are the two sides of the division, with nothing
in between, exactly if the delimiter divides the run where it stands. -/
theorem divide_iff (heof : forall t, t.isEof = true -> d t = false) (h : find? d ts = some k) :
    ((divide d ts).strays = [] ∧ (divide d ts).rest = ts.drop (k + 1)) ↔ DividesAt ts k := by
  rcases find?_eq_some h with ⟨t, hget, ht, _, honward⟩
  constructor
  · intro hdivide
    cases hskip : isSkipped t with
    | false => exact Or.inl ⟨t, hget, hskip⟩
    | true =>
        apply Or.inr
        apply end_of_search (d := d)
        rw [← (divide_of_isSkipped honward hskip).2]
        exact hdivide.2
  · intro hdivides
    cases hskip : isSkipped t with
    | false => exact divide_of_not_isSkipped honward ht hskip
    | true =>
        have hend : forall u, (ts.drop (k + 1)).head? = some u ->
            u.isEof = true ∧ isSkipped u = false := by
          rcases hdivides with ⟨u, hu, hunskipped⟩ | hend
          · rw [Option.some.inj (hget.symm.trans hu), hunskipped] at hskip
            cases hskip
          · exact hend
        rcases divide_of_isSkipped honward hskip with ⟨hstrays, hrest⟩
        rcases search_of_end heof hend with ⟨hbefore, htaken⟩
        rw [hstrays, hrest, hbefore, htaken]
        exact ⟨rfl, rfl⟩

end Divide
end Queue

namespace Strategy

/-!
## The halves of a pair
-/

def idle : Strategy Unit where
  id := "Idle"
  accepts := fun _ _ => true
  read := fun _ _ input => .stay input () []
  emit := fun _ => .ok []

theorem halves_of_find? (first : Strategy α) (second : Strategy β) {d : Delimiter} (args : Args)
    (failed : Bool) {input : List Token} {k : Nat} (h : Queue.find? d.test input = some k) :
    (first.halves second (some d) args failed input).parts =
      ({ first? := some (first.read args failed (input.take k)).outcome,
         second? := some (second.read args true (Queue.divide d.test input).rest).outcome },
        unknownTokens (Queue.divide d.test input).strays (Queue.location input),
        (second.read args true (Queue.divide d.test input).rest).rest) := by
  have hany : input.any d.test = true := Queue.any_of_find? h
  have hempty : input.isEmpty = false := by
    cases input with
    | nil => cases hany
    | cons t ts => rfl
  have hfailed : forall h : Halves StrategyError α β, h.second? = none ->
      (failed || h.isError) = true := by
    rintro ⟨first?, second?⟩ rfl
    cases first? <;> exact Bool.or_true failed
  rw [halves, if_neg (by simp [hempty])]
  simp only [delimitedHalves, hany, if_true, readSecond, Reading.parts, Reading.ofSuffix,
    hfailed]
  rw [Queue.divide_front h]

/-- The halves of a pair are what its strategies read from exactly the tokens in front of
the first delimiter and exactly those behind it, and nothing is reported beside them, for
all strategies exactly if the delimiter divides the run where it stands. -/
theorem halves_iff_dividesAt {d : Delimiter}
    (heof : forall t, t.isEof = true -> d.test t = false) {input : List Token} {k : Nat}
    (h : Queue.find? d.test input = some k) :
    (forall (α β : Type) (first : Strategy α) (second : Strategy β) (args : Args) (failed : Bool),
      (first.halves second (some d) args failed input).parts =
        ({ first? := some (first.read args failed (input.take k)).outcome,
           second? := some (second.read args true (input.drop (k + 1))).outcome }, [],
          (second.read args true (input.drop (k + 1))).rest)) ↔
      Queue.DividesAt input k := by
  rw [← Queue.divide_iff heof h]
  constructor
  · intro hhalves
    have hidle := (halves_of_find? idle idle {} false h).symm.trans
      (hhalves Unit Unit idle idle {} false)
    rcases Prod.mk.inj hidle with ⟨_, hidle⟩
    rcases Prod.mk.inj hidle with ⟨herrors, hrest⟩
    constructor
    · rw [unknownTokens] at herrors
      split at herrors
      · next hstrays => exact List.isEmpty_iff.mp hstrays
      · cases herrors
    · exact hrest
  · rintro ⟨hstrays, hrest⟩ α β first second args failed
    rw [halves_of_find? first second args failed h, hstrays, hrest]
    rfl

def names : Strategy String := Primitive.string.strategy (Scope.ofKind Css.ident) none

def colonOrBlank : Delimiter where
  test := Predicate.anyOf [Predicate.ofKind Css.colon, Predicate.ofKind Css.whitespace]

theorem colonOrBlank_of_isEof {t : Token} (h : t.isEof = true) : colonOrBlank.test t = false := by
  have hcolon : Predicate.ofKind Css.colon t = false := Predicate.ofKind_of_isEof (by decide) h
  have hblank : Predicate.ofKind Css.whitespace t = false :=
    Predicate.ofKind_of_isEof (by decide) h
  simp [colonOrBlank, Predicate.anyOf, hcolon, hblank]

def nameThen (between : List Token) : List Token :=
  .of Css.ident (.text "a") :: between ++ [.of Css.ident (.text "b"), .eof]

/-- A colon divides, and the blank behind it belongs to the second half. -/
theorem halves_colon_blank :
    (forall t, t.isEof = true -> colonOrBlank.test t = false) ∧
      Queue.find? colonOrBlank.test (nameThen [.bare Css.colon, .bare Css.whitespace]) = some 1 ∧
      (names.halves names (some colonOrBlank) {} false
        (nameThen [.bare Css.colon, .bare Css.whitespace])).parts =
          ({ first? := some (.success "a"), second? := some (.success "b") }, [], []) := by
  have heof : forall t, t.isEof = true -> colonOrBlank.test t = false :=
    fun _ => colonOrBlank_of_isEof
  have hfind : Queue.find? colonOrBlank.test
      (nameThen [.bare Css.colon, .bare Css.whitespace]) = some 1 := rfl
  have hdivides : Queue.DividesAt (nameThen [.bare Css.colon, .bare Css.whitespace]) 1 :=
    Or.inl ⟨.bare Css.colon, rfl, rfl⟩
  exact ⟨heof, hfind,
    (halves_iff_dividesAt heof hfind).mpr hdivides String String names names {} false⟩

/-- A blank that stands first is missed: what is behind it is reported and not read, though
it would be read without an error. -/
theorem halves_missed_blank :
    (forall t, t.isEof = true -> colonOrBlank.test t = false) ∧
      Queue.find? colonOrBlank.test (nameThen [.bare Css.whitespace]) = some 1 ∧
      (names.halves names (some colonOrBlank) {} false
        (nameThen [.bare Css.whitespace])).parts =
          ({ first? := some (.success "a"), second? := some (.success "") },
            [.unknownTokens ["ident(b)"] .unknown], []) ∧
      (names.read {} true ((nameThen [.bare Css.whitespace]).drop 2)).outcome =
        .success "b" :=
  ⟨fun _ => colonOrBlank_of_isEof, rfl, rfl, rfl⟩

end Strategy
end StyleTokens
