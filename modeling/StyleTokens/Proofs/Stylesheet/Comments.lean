import StyleTokens.Proofs.Structure.RewriteRule

/-!
# Comments are inert

Keeping comments adds their tokens to a style sheet and changes no other token.
Reading rules commutes with dropping them again, so the rules without their
comments, and the errors, are those of the sheet whose comments were never kept.
-/

namespace StyleTokens

namespace Rewrite

def withoutComments : Rewrite := ⟨true, id⟩

theorem error_withoutComments (e : StructureError) : withoutComments.error e = e := by
  cases e <;> rfl

end Rewrite

namespace Css

open Rewrite (withoutComments)

/-!
## Tokens
-/

/-- Keeping comments makes no difference to a pass, or adds the comment that the
pass took. -/
theorem pass_comments (d : Nat) (c : Char) (cs : List Char) :
    (dialect.pass ⟨d, true⟩ c cs).parts = (dialect.pass ⟨d, false⟩ c cs).parts ∨
      exists t rest, Remark t ∧ (dialect.pass ⟨d, true⟩ c cs).parts = ([t], rest) ∧
        (dialect.pass ⟨d, false⟩ c cs).parts = ([], rest) := by
  rcases claimed_or_unclaimed c cs with ⟨s, hs, hc⟩ | hnone
  · rw [pass_of_claims hs _ hc, pass_of_claims hs _ hc]
    simp only [scanners, List.mem_cons, List.not_mem_nil, or_false] at hs
    rcases hs with
      rfl | rfl | rfl | rfl | rfl | rfl | rfl | rfl | rfl | hcomment | rfl | rfl | rfl
    case inr.inr.inr.inr.inr.inr.inr.inr.inr.inl =>
      rw [hcomment]
      exact Or.inr ⟨_, _, .mk, rfl, rfl⟩
    all_goals exact Or.inl rfl
  · rw [pass_of_unclaimed _ hnone, pass_of_unclaimed _ hnone]
    exact Or.inl rfl

theorem drops_remark {t : Token} (h : Remark t) (l : Location) :
    withoutComments.drops (t.placed l) = true := by
  cases h
  rfl

theorem tokensFrom_comments (d : Nat) (l : Location) {cs : List Char} (h : Prepared cs) :
    withoutComments.run (dialect.tokensFrom ⟨d, true⟩ l cs) =
      dialect.tokensFrom ⟨d, false⟩ l cs := by
  induction l, cs using Dialect.tokensFrom.induct dialect ⟨d, false⟩ with
  | case1 l =>
      rw [Dialect.tokensFrom_nil, Dialect.tokensFrom_nil]
      rfl
  | case2 l c cs found ih =>
      have hlexeme : forall t, t ∈ (dialect.pass ⟨d, false⟩ c cs).tokens -> Lexeme t := by
        intro t ht
        rcases lexeme_of_mem_pass ⟨d, false⟩ h ht with hlexeme | ⟨hkeep, _⟩
        · exact hlexeme
        · cases hkeep
      have hkept : forall t, t ∈ (dialect.pass ⟨d, false⟩ c cs).tokens ->
          (Lexeme t ∨ Remark t) ∧ withoutComments.drops t = false := by
        intro t ht
        refine ⟨Or.inl (hlexeme t ht), ?_⟩
        simp [Rewrite.drops, (hlexeme t ht).not_is_comment]
      have hread := ih (h.tail.of_suffix (dialect.pass ⟨d, false⟩ c cs).rest_suffix)
      have htaken : (dialect.pass ⟨d, true⟩ c cs).rest = (dialect.pass ⟨d, false⟩ c cs).rest ->
          (dialect.pass ⟨d, true⟩ c cs).taken = (dialect.pass ⟨d, false⟩ c cs).taken := by
        intro hrest
        rw [Scan.taken, Scan.taken, hrest]
      rw [Dialect.tokensFrom_cons, Dialect.tokensFrom_cons, Rewrite.run_append]
      rcases pass_comments d c cs with hsame | ⟨t, rest, ht, hkept, hdropped⟩
      · rcases Prod.mk.inj hsame with ⟨htokens, hrest⟩
        rw [htaken hrest, hrest, htokens, Rewrite.run_placed _ hkept, hread]
        rfl
      · rcases Prod.mk.inj hkept with ⟨htokens, hrest⟩
        rcases Prod.mk.inj hdropped with ⟨htokens', hrest'⟩
        rw [htaken (hrest.trans hrest'.symm), hrest.trans hrest'.symm, htokens, htokens',
          List.map_singleton, Rewrite.run_of_drops _ (drops_remark ht l), hread]
        rfl

theorem tokenize_comments (d : Nat) (s : String) :
    withoutComments.run (tokenize ⟨d, true⟩ s) = tokenize ⟨d, false⟩ s :=
  tokensFrom_comments d .start (prepared_prepare s.toList)

end Css

/-!
## Rules
-/

namespace Stylesheet

open Rewrite (withoutComments)

theorem readAll_comments (d : Nat) (s : String) :
    Rule.readAll ⟨d, 0⟩ (Css.tokenize ⟨d, false⟩ s) =
      withoutComments.parsed (List.map withoutComments.rule)
        (Rule.readAll ⟨d, 0⟩ (Css.tokenize ⟨d, true⟩ s)) := by
  rw [← Css.tokenize_comments]
  exact Rewrite.readAll_run ⟨d, 0⟩ _ fun t ht => ⟨⟨d, true⟩, s, ht⟩

/-- Keeping comments changes no error of a style sheet, and no rule but by the
comments in it. -/
theorem parse_comments (d : Nat) (s : String) :
    (parse { maxDepth := d, keepComments := true } s).errors =
        (parse { maxDepth := d, keepComments := false } s).errors ∧
      (parse { maxDepth := d, keepComments := true } s).value.rules.map withoutComments.rule =
        (parse { maxDepth := d, keepComments := false } s).value.rules := by
  have hread := readAll_comments d s
  constructor
  · show (Rule.readAll ⟨d, 0⟩ (Css.tokenize ⟨d, true⟩ s)).errors =
      (Rule.readAll ⟨d, 0⟩ (Css.tokenize ⟨d, false⟩ s)).errors
    rw [hread]
    exact (List.map_id'' Rewrite.error_withoutComments _).symm
  · show (Rule.readAll ⟨d, 0⟩ (Css.tokenize ⟨d, true⟩ s)).value.map withoutComments.rule =
      (Rule.readAll ⟨d, 0⟩ (Css.tokenize ⟨d, false⟩ s)).value
    rw [hread]
    rfl

end Stylesheet

end StyleTokens
