import StyleTokens.Proofs.Structure.Rewrite
import StyleTokens.Proofs.Structure.SettledRule
import StyleTokens.Structure.Stylesheet

/-!
# Rewriting rules

Reading rules commutes with a rewriting of tokens, because the comments that it
drops are blank and what separates rules is never looked into.
-/

namespace StyleTokens
namespace Rewrite

variable {r : Rewrite}

/-!
## Preludes
-/

def preludeEnd (r : Rewrite) (e : PreludeEnd) : PreludeEnd :=
  match e with
  | .block b => .block (r.block b)
  | e => e

def prelude (r : Rewrite) (p : Prelude) : Prelude :=
  ⟨r.run p.values, p.errors.map r.error, r.preludeEnd p.ending, r.run p.rest⟩

theorem respects_ends (semicolonEnds : Bool) : r.Respects (Prelude.ends semicolonEnds) where
  token t ht := by
    simp [Prelude.ends, Token.isBraceBlock, ht, r.token_asBlock?_eq_none ht]
  dropped t ht hdrops := by
    have heof : t.isEof = false := r.not_is_of_drops hdrops (by decide)
    have hsemicolon : t.is Css.semicolon = false := r.not_is_of_drops hdrops (by decide)
    have hbrace : t.is Css.openBrace = false := r.not_is_of_drops hdrops (by decide)
    simp [Prelude.ends, Token.isBraceBlock, ht, heof, hsemicolon, hbrace]

theorem parseContents_run {n : Nesting} {t : Token} {c : Construct} {ts : List Token}
    (hemitted : forall u, u ∈ ts -> Css.Emitted u) (ho : t.opens? = some c) (l : Location) :
    parseContents n c (r.move l) (r.run ts) = r.parsed r.run (parseContents n c l ts) :=
  parseContents_run_of_run hemitted ho l
    (parseRun_run n.deeper c.ends (respects_ends_of_opens? ho) ts hemitted)

theorem readEnd_run (n : Nesting) (semicolonEnds : Bool) (values : List Token)
    (errors : List StructureError) {input : List Token}
    (hemitted : forall t, t ∈ input -> Css.Emitted t)
    (hstands : StandsAt (Prelude.ends semicolonEnds) input) :
    Prelude.readEnd n semicolonEnds (r.run values) (errors.map r.error) (r.run input) =
      r.prelude (Prelude.readEnd n semicolonEnds values errors input) := by
  cases input with
  | nil => rfl
  | cons t ts =>
      have ht := hemitted t List.mem_cons_self
      have hdrops : r.drops t = false :=
        (respects_ends semicolonEnds).not_drops ht.asBlock?_eq_none (hstands t rfl)
      rw [r.run_cons hdrops]
      unfold Prelude.readEnd
      simp only [token_isEof, token_is, ht.asBlock?_eq_none,
        r.token_asBlock?_eq_none ht.asBlock?_eq_none]
      split
      · rw [prelude, r.run_cons hdrops]
        rfl
      · split
        · rfl
        · split
          · rename_i hbrace
            have hcontents := parseContents_run (r := r) (n := n)
              (fun u hu => hemitted u (List.mem_cons_of_mem t hu))
              (opens?_of_openBrace hbrace) t.location
            simp only [Prelude.block_read_eq_parseContents, token_kind, token_location, hcontents]
            simp [prelude, parsed, preludeEnd, block]
          · rfl

theorem prelude_read (n : Nesting) (semicolonEnds : Bool) {input : List Token}
    (hemitted : forall t, t ∈ input -> Css.Emitted t) :
    Prelude.read n semicolonEnds (r.run input) =
      r.prelude (Prelude.read n semicolonEnds input) := by
  rw [Prelude.read_eq_readEnd, parseRun_run n _ (respects_ends semicolonEnds) input hemitted]
  exact readEnd_run n semicolonEnds _ _
    (fun t ht => hemitted t ((readRun n (Prelude.ends semicolonEnds) input).rest_suffix.mem ht))
    (standsAt_parseRun_rest n (Prelude.ends semicolonEnds) input)

/-!
## Rules
-/

theorem error_unfinished (e : PreludeEnd) (construct : String) (l : Location) :
    r.error (Rule.unfinished e construct l) =
      Rule.unfinished (r.preludeEnd e) construct (r.move l) := by
  cases e <;> rfl

theorem readNamed_run (n : Nesting) (name : String) (l : Location) {ts : List Token}
    (hemitted : forall t, t ∈ ts -> Css.Emitted t) :
    Rule.readNamed n name (r.move l) (r.run ts) =
      r.parsed r.rule (Rule.readNamed n name l ts) := by
  simp only [Rule.readNamed, prelude_read n true hemitted]
  cases hend : (Prelude.read n true ts).ending with
  | block b => simp [prelude, hend, preludeEnd, parsed, rule, run_trim]
  | semicolon => simp [prelude, hend, preludeEnd, parsed, rule, run_trim]
  | eof => simp [prelude, hend, preludeEnd, parsed, rule, error_unfinished]
  | exhausted => simp [prelude, hend, preludeEnd, parsed, rule, error_unfinished]

theorem readQualified_run (n : Nesting) {t : Token} (hdrops : r.drops t = false)
    {ts : List Token} (hemitted : forall u, u ∈ t :: ts -> Css.Emitted u) :
    Rule.readQualified n (r.token t :: r.run ts) =
      r.parsed r.rule (Rule.readQualified n (t :: ts)) := by
  have hread := prelude_read (r := r) n false hemitted
  rw [r.run_cons hdrops] at hread
  have hlocation : Queue.location (r.token t :: r.run ts) = r.move (Queue.location (t :: ts)) :=
    r.token_location t
  simp only [Rule.readQualified, hread, hlocation]
  cases hend : (Prelude.read n false (t :: ts)).ending with
  | block b => simp [prelude, hend, preludeEnd, parsed, rule, run_trim]
  | semicolon => simp [prelude, hend, preludeEnd, parsed, rule, error_unfinished]
  | eof => simp [prelude, hend, preludeEnd, parsed, rule, error_unfinished]
  | exhausted => simp [prelude, hend, preludeEnd, parsed, rule, error_unfinished]

theorem read_run (n : Nesting) {t : Token} (hdrops : r.drops t = false) {ts : List Token}
    (hemitted : forall u, u ∈ t :: ts -> Css.Emitted u) :
    Rule.read n (r.token t) (r.run ts) = r.parsed r.rule (Rule.read n t ts) := by
  cases hat : t.is Css.atKeyword with
  | true =>
      rw [Rule.read_of_atKeyword n hat, Rule.read_of_atKeyword n (by simp [hat]),
        r.text_token (hemitted t List.mem_cons_self), token_location]
      exact readNamed_run n t.text t.location fun u hu => hemitted u (List.mem_cons_of_mem t hu)
  | false =>
      rw [Rule.read_of_not_atKeyword n hat, Rule.read_of_not_atKeyword n (by simp [hat])]
      exact readQualified_run n hdrops hemitted

theorem isSkipped_of_drops {t : Token} (h : r.drops t = true) : Rule.isSkipped t = true := by
  simp [Rule.isSkipped, r.isBlank_of_drops h]

theorem token_isSkipped (t : Token) : Rule.isSkipped (r.token t) = Rule.isSkipped t := by
  simp [Rule.isSkipped]

theorem readAll_run (n : Nesting) (ts : List Token)
    (hemitted : forall t, t ∈ ts -> Css.Emitted t) :
    Rule.readAll n (r.run ts) = r.parsed (List.map r.rule) (Rule.readAll n ts) := by
  induction ts using Rule.readAll.induct n with
  | case1 =>
      rw [run_nil, Rule.readAll]
      rfl
  | case2 t ts heof =>
      have hdrops : r.drops t = false := by
        rw [Bool.eq_false_iff]
        intro hdrops
        have hnot : t.isEof = false := r.not_is_of_drops hdrops (by decide)
        rw [hnot] at heof
        cases heof
      rw [r.run_cons hdrops, Rule.readAll_of_isEof n _ (by simp [heof]),
        Rule.readAll_of_isEof n _ heof, parsed, r.run_cons hdrops]
      rfl
  | case3 t ts heof hskip ih =>
      have hread := ih fun u hu => hemitted u (List.mem_cons_of_mem t hu)
      have ht : t.isEof = false := by simpa using heof
      rw [Rule.readAll_of_isSkipped n ts ht hskip]
      cases hdrops : r.drops t with
      | true =>
          rw [r.run_of_drops hdrops]
          exact hread
      | false =>
          rw [r.run_cons hdrops, Rule.readAll_of_isSkipped n _ (by simp [ht])
            (by rw [token_isSkipped, hskip])]
          exact hread
  | case4 t ts heof hskip first ih =>
      have ht : t.isEof = false := by simpa using heof
      have hnot : Rule.isSkipped t = false := by simpa using hskip
      have hdrops : r.drops t = false := by
        rw [Bool.eq_false_iff]
        intro hdrops
        rw [isSkipped_of_drops hdrops] at hnot
        cases hnot
      have hsuffix := (Rule.read_rest_suffix n ts ht).trans (List.suffix_cons t ts)
      have hothers := ih fun u hu => hemitted u (hsuffix.mem hu)
      rw [r.run_cons hdrops, Rule.readAll_cons n _ (by simp [ht])
        (by rw [token_isSkipped, hnot]), Rule.readAll_cons n ts ht hnot,
        read_run n hdrops hemitted]
      show Parsed.mk (_ :: (Rule.readAll n (r.run (Rule.read n t ts).rest)).value)
        (_ ++ (Rule.readAll n (r.run (Rule.read n t ts).rest)).errors)
        (Rule.readAll n (r.run (Rule.read n t ts).rest)).rest = _
      rw [hothers]
      simp only [parsed, List.map_cons, List.map_append]
      rfl

end Rewrite
end StyleTokens
