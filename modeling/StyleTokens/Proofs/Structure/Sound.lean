import StyleTokens.Proofs.Structure.SettledRule

/-!
# Closed brackets

Tokens in which every construct is read without an error are left in this state
by whatever reads values from them.  A rule that finds its end among them is read
without an error.
-/

namespace StyleTokens

/-!
## Closed brackets
-/

/-- All constructs in the tokens, up to the end of the text, are read without an
error. -/
def Sound (n : Nesting) (ts : List Token) : Prop :=
  (parseRun n Token.isEof ts).errors = []

theorem sound_cons {n : Nesting} {t : Token} {ts : List Token} (ht : t.isEof = false)
    (h : Sound n (t :: ts)) :
    (readComponent n t ts).errors = [] ∧ Sound n (readComponent n t ts).rest := by
  rw [Sound, parseRun_cons ts ht] at h
  exact List.append_eq_nil_iff.mp h

theorem sound_tail {n : Nesting} {t : Token} {ts : List Token} (ht : t.isEof = false)
    (ho : t.opens? = none) (h : Sound n (t :: ts)) : Sound n ts := by
  have hrest := (sound_cons ht h).2
  rw [readComponent_of_opens_none n ts ho] at hrest
  exact hrest

/-- A run reads closed brackets without an error and leaves closed brackets. -/
theorem sound_parseRun (n : Nesting) (stop : Predicate) (heof : StopsAtEof stop)
    (ts : List Token) (h : Sound n ts) :
    (parseRun n stop ts).errors = [] ∧ Sound n (parseRun n stop ts).rest := by
  induction ts using parseRun_induction n stop with
  | nil =>
      rw [parseRun_of_standsAt (standsAt_nil stop)]
      exact ⟨rfl, h⟩
  | stopped t ts ht =>
      rw [parseRun_of_standsAt (standsAt_cons ts ht)]
      exact ⟨rfl, h⟩
  | value t ts ht ih =>
      rcases sound_cons (heof.not_isEof ht) h with ⟨hfirst, hothers⟩
      rcases ih hothers with ⟨herrors, hrest⟩
      rw [parseRun_cons ts ht]
      constructor
      · show (readComponent n t ts).errors ++ _ = []
        rw [hfirst, herrors]
        rfl
      · exact hrest

/-!
## Rules
-/

def Css.openers : List Kind := [Css.openBrace, Css.openBracket, Css.openParen, Css.function]

theorem opens?_eq_none_iff {t : Token} :
    t.opens? = none ↔ forall k, k ∈ Css.openers -> t.is k = false := by
  have hopeners : (forall k, k ∈ Css.openers -> t.is k = false) ↔
      Css.closingOf? t.kind = none ∧ t.is Css.function = false := by
    simp only [Css.openers, Css.closingOf?, Token.is, List.forall_mem_cons,
      List.not_mem_nil, false_imp_iff, implies_true, and_true]
    grind
  rw [hopeners]
  unfold Token.opens?
  cases hclosing : Css.closingOf? t.kind with
  | none => simp
  | some closing => simp

theorem opens?_eq_none_of_is {t : Token} {k : Kind} (h : t.is k = true)
    (hk : Css.openers.all (fun opening => !k.same opening) = true) : t.opens? = none := by
  apply opens?_eq_none_iff.mpr
  intro opening hmem
  have hdiffers : k.same opening = false := by
    simpa using List.all_eq_true.mp hk opening hmem
  rw [Bool.eq_false_iff] at hdiffers ⊢
  intro hsame
  apply hdiffers
  rcases Kind.same_iff.mp h with ⟨hdialect, hname⟩
  rw [Kind.same_iff, <- hdialect, <- hname]
  exact Kind.same_iff.mp hsame

theorem opens?_eq_none_of_closing {t u : Token} {c : Construct} (ho : t.opens? = some c)
    (his : u.is c.closing = true) : u.opens? = none := by
  have hdistinct : forall k, k ∈ [Css.closeBrace, Css.closeBracket, Css.closeParen] ->
      Css.openers.all (fun opening => !k.same opening) = true := by
    decide
  exact opens?_eq_none_of_is his (hdistinct _ (closing_of_opens? ho))

namespace Prelude

theorem sound_readEnd {n : Nesting} {semicolonEnds : Bool} (values : List Token) {t : Token}
    {ts : List Token} (heof : t.isEof = false) (hblock : t.asBlock? = none)
    (h : Sound n (t :: ts))
    (hend : (readEnd n semicolonEnds values [] (t :: ts)).ending.reached = true) :
    (readEnd n semicolonEnds values [] (t :: ts)).errors = [] ∧
      Sound n (readEnd n semicolonEnds values [] (t :: ts)).rest := by
  unfold readEnd at hend ⊢
  simp only [heof, Bool.false_eq_true, if_false] at hend ⊢
  by_cases hsemicolon : (semicolonEnds && t.is Css.semicolon) = true
  · simp only [if_pos hsemicolon]
    have his : t.is Css.semicolon = true := (Bool.and_eq_true_iff.mp hsemicolon).2
    exact ⟨trivial, sound_tail heof (opens?_eq_none_of_is his (by decide)) h⟩
  · simp only [if_neg hsemicolon] at hend ⊢
    by_cases hbrace : t.is Css.openBrace = true
    · rcases sound_cons heof h with ⟨herrors, hrest⟩
      rw [readComponent_eq_parseContents n ts (opens?_of_openBrace hbrace)] at herrors hrest
      simp only [if_pos hbrace, block_read_eq_parseContents, List.nil_append]
      exact ⟨herrors, hrest⟩
    · simp only [if_neg hbrace, hblock] at hend
      cases hend

theorem sound_read {n : Nesting} {semicolonEnds : Bool} {input : List Token}
    (hfree : EofFree input) (hblock : forall t, t ∈ input -> t.asBlock? = none)
    (h : Sound n input) (hend : (read n semicolonEnds input).ending.reached = true) :
    (read n semicolonEnds input).errors = [] ∧ Sound n (read n semicolonEnds input).rest := by
  obtain ⟨herrors, hsound⟩ :=
    sound_parseRun n (ends semicolonEnds) (stopsAtEof_ends semicolonEnds) input h
  have hsuffix : (parseRun n (ends semicolonEnds) input).rest <:+ input :=
    (readRun n (ends semicolonEnds) input).rest_suffix
  rw [read_eq_readEnd, herrors] at hend ⊢
  cases hrest : (parseRun n (ends semicolonEnds) input).rest with
  | nil =>
      rw [hrest] at hend
      cases hend
  | cons t ts =>
      rw [hrest] at hend hsound hsuffix
      have hmem : t ∈ input := hsuffix.mem List.mem_cons_self
      exact sound_readEnd _ (hfree t hmem) (hblock t hmem) hsound hend

end Prelude

namespace Rule

theorem reached_of_readNamed {n : Nesting} {name : String} {l : Location} {ts : List Token}
    (h : (readNamed n name l ts).value.isUnknown = false) :
    (Prelude.read n true ts).ending.reached = true ∧
      (readNamed n name l ts).errors = (Prelude.read n true ts).errors := by
  simp only [readNamed] at h ⊢
  split at h
  · rename_i hend
    exact ⟨by rw [hend]; rfl, rfl⟩
  · rename_i hend
    exact ⟨by rw [hend]; rfl, rfl⟩
  · cases h

theorem reached_of_readQualified {n : Nesting} {input : List Token}
    (h : (readQualified n input).value.isUnknown = false) :
    (Prelude.read n false input).ending.reached = true ∧
      (readQualified n input).errors = (Prelude.read n false input).errors := by
  simp only [readQualified] at h ⊢
  split at h
  · rename_i hend
    exact ⟨by rw [hend]; rfl, rfl⟩
  · cases h

theorem sound_read {n : Nesting} {t : Token} {ts : List Token} (hfree : EofFree (t :: ts))
    (hblock : forall u, u ∈ t :: ts -> u.asBlock? = none) (h : Sound n (t :: ts))
    (hknown : (read n t ts).value.isUnknown = false) :
    (read n t ts).errors = [] ∧ Sound n (read n t ts).rest := by
  cases hat : t.is Css.atKeyword with
  | true =>
      rw [read_of_atKeyword n hat] at hknown ⊢
      rcases reached_of_readNamed hknown with ⟨hend, herrors⟩
      have htail : Sound n ts :=
        sound_tail (hfree t List.mem_cons_self) (opens?_eq_none_of_is hat (by decide)) h
      rw [herrors, readNamed_rest]
      exact Prelude.sound_read (fun u hu => hfree u (List.mem_cons_of_mem t hu))
        (fun u hu => hblock u (List.mem_cons_of_mem t hu)) htail hend
  | false =>
      rw [read_of_not_atKeyword n hat] at hknown ⊢
      rcases reached_of_readQualified hknown with ⟨hend, herrors⟩
      rw [herrors, readQualified_rest]
      exact Prelude.sound_read hfree hblock h hend

end Rule

end StyleTokens
