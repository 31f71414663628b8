import StyleTokens.Proofs.Structure.Resync

/-!
# Tokens that open nothing

Where no token opens anything, a run is cut at the first token that stops it, and
nothing is entered: the limit on nesting plays no part in what is read.
-/

namespace StyleTokens

/-- None of the tokens opens a block or a call. -/
def OpensNothing (ts : List Token) : Prop :=
  forall t, t ∈ ts -> t.opens? = none

theorem OpensNothing.tail {t : Token} {ts : List Token} (h : OpensNothing (t :: ts)) :
    OpensNothing ts := by
  intro u hu
  exact h u (List.mem_cons_of_mem t hu)

theorem OpensNothing.suffix {ts us : List Token} (h : OpensNothing us) (hsuffix : ts <:+ us) :
    OpensNothing ts := by
  intro t ht
  exact h t (hsuffix.mem ht)

/-!
## Runs
-/

theorem parseRun_of_opensNothing (n : Nesting) (stop : Predicate) {ts : List Token}
    (h : OpensNothing ts) :
    parseRun n stop ts = ⟨Queue.before stop ts, [], Queue.onward stop ts⟩ := by
  induction ts with
  | nil => exact parseRun_of_standsAt (standsAt_nil stop)
  | cons t ts ih =>
      cases ht : stop t with
      | true =>
          rw [parseRun_of_standsAt (standsAt_cons ts ht)]
          simp [Queue.before, Queue.onward, ht]
      | false =>
          rw [parseRun_cons ts ht, readComponent_of_opens_none n ts (h t List.mem_cons_self),
            ih h.tail]
          simp [Parsed.followedBy, Queue.before, Queue.onward, ht]

section

variable (n m : Nesting)

theorem readRun_of_opensNothing (stop : Predicate) {ts : List Token} (h : OpensNothing ts) :
    readRun n stop ts = readRun m stop ts := by
  induction ts with
  | nil => rw [readRun_nil, readRun_nil]
  | cons t ts ih =>
      cases ht : stop t with
      | true => rw [readRun_of_stop ts ht, readRun_of_stop ts ht]
      | false =>
          have ho := h t List.mem_cons_self
          rw [readRun_of_opens_none ts ht ho, readRun_of_opens_none ts ht ho, ih h.tail]

theorem parseRun_congr (stop : Predicate) {ts : List Token} (h : OpensNothing ts) :
    parseRun n stop ts = parseRun m stop ts := by
  rw [parseRun, parseRun, readRun_of_opensNothing n m stop h]

theorem opensNothing_parseRun (stop : Predicate) {ts : List Token} (h : OpensNothing ts) :
    OpensNothing (parseRun n stop ts).value := by
  intro t ht
  rw [parseRun_of_opensNothing n stop h] at ht
  exact h t (List.takeWhile_prefix _ |>.mem ht)

/-!
## Declarations and rules
-/

namespace Declaration

theorem read_congr {ts : List Token} (h : OpensNothing ts) : read n ts = read m ts := by
  cases ts with
  | nil => rfl
  | cons t ts =>
      simp only [read]
      split
      · have hsuffix : (Queue.pollIf (Predicate.ofKind Css.colon) (Queue.skipBlank ts)).2 <:+ ts :=
          (Queue.pollIf_suffix _ _).trans (Queue.skipBlank_suffix ts)
        split
        · rfl
        · rename_i rest hpoll
          rw [hpoll] at hsuffix
          have hrest : OpensNothing (Queue.skipBlank rest) :=
            h.tail.suffix ((Queue.skipBlank_suffix rest).trans hsuffix)
          simp only [readValues, readRun_of_opensNothing n m Token.isEof hrest]
      · rfl

end Declaration

namespace Prelude

theorem readEnd_congr {semicolonEnds : Bool} {values : List Token}
    {errors : List StructureError} {ts : List Token} (h : OpensNothing ts) :
    readEnd n semicolonEnds values errors ts = readEnd m semicolonEnds values errors ts := by
  cases ts with
  | nil => rfl
  | cons t ts =>
      have hbrace : t.is Css.openBrace = false := by
        apply opens?_eq_none_iff.mp (h t List.mem_cons_self)
        exact List.mem_cons_self
      simp only [readEnd, hbrace]
      rfl

theorem read_congr (semicolonEnds : Bool) {ts : List Token} (h : OpensNothing ts) :
    read n semicolonEnds ts = read m semicolonEnds ts := by
  have hsuffix : (parseRun m (ends semicolonEnds) ts).rest <:+ ts :=
    (readRun m (ends semicolonEnds) ts).rest_suffix
  rw [read_eq_readEnd, read_eq_readEnd, parseRun_congr n m _ h]
  exact readEnd_congr n m (h.suffix hsuffix)

end Prelude

namespace Rule

theorem read_congr {t : Token} {ts : List Token} (h : OpensNothing (t :: ts)) :
    read n t ts = read m t ts := by
  cases hat : t.is Css.atKeyword with
  | true =>
      rw [read_of_atKeyword n hat, read_of_atKeyword m hat]
      simp only [readNamed, Prelude.read_congr n m true h.tail]
  | false =>
      rw [read_of_not_atKeyword n hat, read_of_not_atKeyword m hat]
      simp only [readQualified, Prelude.read_congr n m false h]

end Rule

/-!
## Style blocks
-/

namespace StyleBlock

theorem readDeclaration_congr {ts : List Token} (h : OpensNothing ts) :
    readDeclaration n ts = readDeclaration m ts := by
  have hvalues := opensNothing_parseRun m endsItem h
  rw [readDeclaration_eq_ofRun, readDeclaration_eq_ofRun, parseRun_congr n m _ h]
  simp only [ofRun, Declaration.read_congr n m hvalues]

theorem skipIllegal_congr {t : Token} {ts : List Token} (h : OpensNothing (t :: ts)) :
    skipIllegal n t ts = skipIllegal m t ts := by
  rw [skipIllegal_eq_ofRun, skipIllegal_eq_ofRun, parseRun_congr n m _ h]

theorem readItem_congr {t : Token} {ts : List Token} (h : OpensNothing (t :: ts)) :
    readItem n t ts = readItem m t ts := by
  simp only [readItem, readRule, Rule.read_congr n m h, readDeclaration_congr n m h,
    skipIllegal_congr n m h]

theorem read_congr {ts : List Token} (h : OpensNothing ts) : read n ts = read m ts := by
  induction ts using StyleBlock.read.induct n with
  | case1 => rw [read, read]
  | case2 t ts heof => rw [read, read, if_pos heof, if_pos heof]
  | case3 t ts heof hskip ih =>
      have ht : t.isEof = false := by simpa using heof
      rw [read_of_isSkipped n ts ht hskip, read_of_isSkipped m ts ht hskip]
      exact ih h.tail
  | case4 t ts heof hskip first ih =>
      have ht : t.isEof = false := by simpa using heof
      have hread : isSkipped t = false := by simpa using hskip
      have hothers : read n (readItem n t ts).rest = read m (readItem n t ts).rest :=
        ih (h.tail.suffix (readItem_rest_suffix n ts hread ht))
      rw [read_cons n ts ht hread, read_cons m ts ht hread, <- readItem_congr n m h, hothers]

end StyleBlock

end

end StyleTokens
