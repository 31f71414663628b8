import StyleTokens.Proofs.Css.Concat
import StyleTokens.Proofs.Structure.RewriteRule
import StyleTokens.Proofs.Structure.SettledRule

/-!
# Style sheets one behind the other

A style sheet without an error, whose last character ends a rule, can be followed by
any other: the rules and errors of the second sheet are those that it has alone,
moved to where it now stands.
-/

namespace StyleTokens

namespace Location

/-!
## Moved locations
-/

/-- Where a location is once its text stands behind another that ends at `base`.
Only on its first line the text shares a line with what stands before. -/
def onward (base l : Location) : Location :=
  if l.line = 1 then ⟨base.line, base.column + (l.column - 1), base.offset + l.offset⟩
  else ⟨base.line + (l.line - 1), l.column, base.offset + l.offset⟩

/-- Lines and columns count from one. -/
def Counted (l : Location) : Prop :=
  1 ≤ l.line ∧ 1 ≤ l.column

theorem counted_start : start.Counted :=
  ⟨Nat.le_refl 1, Nat.le_refl 1⟩

theorem Counted.step {l : Location} (h : l.Counted) (c : Char) : (l.step c).Counted := by
  rcases h with ⟨hline, hcolumn⟩
  unfold Location.step
  split
  · exact ⟨Nat.le_add_left 1 l.line, Nat.le_refl 1⟩
  · exact ⟨hline, Nat.le_add_left 1 l.column⟩

theorem Counted.past {l : Location} (h : l.Counted) (cs : List Char) : (l.past cs).Counted := by
  induction cs generalizing l with
  | nil => exact h
  | cons c cs ih => exact ih (h.step c)

theorem onward_start (base : Location) : onward base start = base := rfl

theorem onward_offset (base l : Location) :
    (onward base l).offset = base.offset + l.offset := by
  unfold onward
  split <;> rfl

theorem step_onward (base : Location) {l : Location} (h : l.Counted) (c : Char) :
    (onward base l).step c = onward base (l.step c) := by
  rcases l with ⟨line, column, offset⟩
  have hline : 1 ≤ line := h.1
  have hcolumn : 1 ≤ column := h.2
  by_cases hfirst : line = 1
  · subst hfirst
    by_cases hc : c = '\n'
    · subst hc
      rfl
    · simp only [onward, step, if_neg hc, if_true, Location.mk.injEq,
        true_and]
      omega
  · by_cases hc : c = '\n'
    · subst hc
      have hnext : line + 1 ≠ 1 := by
        omega
      simp only [onward, step, if_neg hfirst, if_neg hnext, if_true, Location.mk.injEq,
        true_and]
      omega
    · simp only [onward, step, if_neg hc, if_neg hfirst, Location.mk.injEq,
        true_and]
      omega

theorem past_onward (base : Location) {l : Location} (h : l.Counted) (cs : List Char) :
    (onward base l).past cs = onward base (l.past cs) := by
  induction cs generalizing l with
  | nil => rfl
  | cons c cs ih => rw [past_cons, past_cons, step_onward base h, ih (h.step c)]

end Location

namespace Rewrite

/-- Move what was read to behind a text that ends at `base`. -/
def onward (base : Location) : Rewrite := ⟨false, base.onward⟩

end Rewrite

namespace Css

/-!
## Moved tokens
-/

theorem tokensFrom_onward (o : Options) (base : Location) {l : Location} (hl : l.Counted)
    {cs : List Char} (h : Prepared cs) :
    dialect.tokensFrom o (base.onward l) cs =
      (Rewrite.onward base).run (dialect.tokensFrom o l cs) := by
  induction l, cs using Dialect.tokensFrom.induct dialect o with
  | case1 l =>
      rw [Dialect.tokensFrom_nil, Dialect.tokensFrom_nil]
      rfl
  | case2 l c cs found =>
      rename_i ih
      have hcut : forall t, t ∈ (dialect.pass o c cs).tokens ->
          (Lexeme t ∨ Remark t) ∧ (Rewrite.onward base).drops t = false := by
        intro t ht
        exact ⟨(lexeme_of_mem_pass o h ht).imp_right And.right, rfl⟩
      have hrest := h.tail.of_suffix (dialect.pass o c cs).rest_suffix
      rw [Dialect.tokensFrom_cons, Dialect.tokensFrom_cons, Rewrite.run_append,
        Rewrite.run_placed _ hcut, Location.step_onward base hl,
        Location.past_onward base (hl.step c), ih ((hl.step c).past _) hrest]
      rfl

/-- The last character of the text is cut as a closing brace or a semicolon. -/
def EndsClosed (o : Options) (s : String) : Prop :=
  exists front last eof, tokenize o s = front ++ [last, eof] ∧ endsRule last = true ∧
    last.location.offset + 1 = (prepare s.toList).length

def ending (s : String) : Location :=
  Location.start.past (prepare s.toList)

theorem tokenize_append {o : Options} {s : String} (h : EndsClosed o s) (more : String) :
    exists front, (forall t, t ∈ front -> t.isEof = false) ∧
      tokenize o s = front ++ [Token.eof.placed (ending s)] ∧
      tokenize o (s ++ more) = front ++ (Rewrite.onward (ending s)).run (tokenize o more) := by
  rcases h with ⟨front, last, eof, hread, hends, hlast⟩
  rcases tokensFrom_eq_append o .start (prepare s.toList) with ⟨others, hfree, hothers⟩
  have hwhole : tokenize o s = others ++ [Token.eof.placed (ending s)] := hothers
  have hsplit : front ++ [last] ++ [eof] = others ++ [Token.eof.placed (ending s)] := by
    rw [← hwhole, hread, List.append_assoc]
    rfl
  rcases List.append_inj' hsplit rfl with ⟨hfront, heof⟩
  rcases (List.cons.inj heof).1 with rfl
  have hlast' : last.location.offset + 1 =
      Location.start.offset + (prepare s.toList).length := by
    rw [hlast]
    exact (Nat.zero_add _).symm
  have hread' : dialect.tokensFrom o .start (prepare s.toList) =
      front ++ [last] ++ [Token.eof.placed (ending s)] := by
    rw [hfront]
    exact hothers
  rcases cuts_of_endsRule o hread' hends hlast' with ⟨hbounded, hmore⟩
  refine ⟨others, hfree, hwhole, ?_⟩
  have hmoved := tokensFrom_onward o (ending s) Location.counted_start
    (prepared_prepare more.toList)
  rw [Location.onward_start] at hmoved
  show dialect.tokensFrom o .start (prepare (s ++ more).toList) = _
  rw [String.toList_append, prepare_append hbounded, hmore, hfront]
  exact congrArg (others ++ ·) hmoved

end Css

namespace Stylesheet

/-!
## Rules
-/

def behind (s : String) : Rewrite := .onward (Css.ending s)

theorem behind_offset (s : String) (l : Location) :
    ((behind s).move l).offset = (Css.prepare s.toList).length + l.offset := by
  show ((Css.ending s).onward l).offset = _
  rw [Location.onward_offset, Css.ending, Location.past_offset]
  exact congrArg (· + l.offset) (Nat.zero_add _)

/-- A style sheet without errors that ends a rule hides nothing of the sheet behind
it: the rules of both stand one behind the other, and the errors are those of the
second, all of it moved by the length of the first. -/
theorem parse_append (o : Options) {s : String} (hvalid : (parse o s).errors = [])
    (hends : Css.EndsClosed o s) (more : String) :
    (parse o (s ++ more)).value.rules =
        (parse o s).value.rules ++ (parse o more).value.rules.map (behind s).rule ∧
      (parse o (s ++ more)).errors = (parse o more).errors.map (behind s).error ∧
      forall l, ((behind s).move l).offset = (Css.prepare s.toList).length + l.offset := by
  rcases Css.tokenize_append hends more with ⟨front, hfree, hfirst, hboth⟩
  have hemitted : forall t, t ∈ Css.tokenize o more -> Css.Emitted t := fun t ht =>
    ⟨o, more, ht⟩
  have hmoved := Rewrite.readAll_run (r := behind s) (.ofOptions o) _ hemitted
  have hvalid' : (Rule.readAll (.ofOptions o)
      (front ++ [Token.eof.placed (Css.ending s)])).errors = [] := by
    rw [← hfirst]
    exact hvalid
  have hread := Rule.readAll_append (n := .ofOptions o) (t := Token.eof.placed (Css.ending s))
    rfl hfree hvalid' ((behind s).run (Css.tokenize o more))
  rw [← hfirst, hmoved] at hread
  refine ⟨?_, ?_, behind_offset s⟩
  · show (Rule.readAll (.ofOptions o) (Css.tokenize o (s ++ more))).value = _
    rw [hboth]
    exact congrArg Parsed.value hread
  · show (Rule.readAll (.ofOptions o) (Css.tokenize o (s ++ more))).errors = _
    rw [hboth]
    exact congrArg Parsed.errors hread

theorem parse_append_escaped_brace :
    (parse {} "a\x7b\\\x7d\x7d").errors = [] ∧ Css.EndsClosed {} "a\x7b\\\x7d\x7d" ∧
      (parse {} ("a\x7b\\\x7d\x7d" ++ "e5;")).value.rules =
        (parse {} "a\x7b\\\x7d\x7d").value.rules ++
          (parse {} "e5;").value.rules.map (behind "a\x7b\\\x7d\x7d").rule ∧
      (parse {} ("a\x7b\\\x7d\x7d" ++ "e5;")).errors =
        (parse {} "e5;").errors.map (behind "a\x7b\\\x7d\x7d").error := by
  have hvalid : (parse {} "a\x7b\\\x7d\x7d").errors = [] := by
    decide +kernel
  have hcut : Css.tokenize {} "a\x7b\\\x7d\x7d" =
      [⟨Css.ident, .text "a", ⟨1, 1, 0⟩, none⟩, ⟨Css.openBrace, .none, ⟨1, 2, 1⟩, none⟩,
        ⟨Css.ident, .text "\x7d", ⟨1, 3, 2⟩, none⟩] ++
        [⟨Css.closeBrace, .none, ⟨1, 5, 4⟩, none⟩, Token.eof.placed ⟨1, 6, 5⟩] := by
    with_unfolding_all rfl
  have hends : Css.EndsClosed {} "a\x7b\\\x7d\x7d" :=
    ⟨_, _, _, hcut, by decide, by decide⟩
  rcases parse_append {} hvalid hends "e5;" with ⟨hrules, herrors, _⟩
  exact ⟨hvalid, hends, hrules, herrors⟩

end Stylesheet

end StyleTokens
