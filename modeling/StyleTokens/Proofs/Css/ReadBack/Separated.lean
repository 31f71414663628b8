import StyleTokens.Proofs.Css.ReadBack.Run

/-!
# Separated runs are read back

Tokens that were cut from style sheets, with one blank between any two of them,
keep their kinds and values when the run is written and cut again.
-/

namespace StyleTokens
namespace Css

/-!
## Tokens that keep kind and value
-/

def steadyKinds : List Kind :=
  [ident, hash, atKeyword, url, string, function, delim, semicolon, colon, comma, openParen,
    closeParen, openBracket, closeBracket, openBrace, closeBrace, cdo, cdc, number, percentage]

/-- A token of such a kind, cut from a style sheet without an error.  A string does
not hold what preparing replaces, a function is no address, a number an integer. -/
structure Steady (t : Token) : Prop where
  emitted : Emitted t
  sound : t.isFaulty = false
  kind_mem : t.kind ∈ steadyKinds
  plain : t.kind = string -> '\r' ∉ t.text.toList ∧ '\x0C' ∉ t.text.toList
  named : t.kind = function -> Text.sameFolded t.text "url" = false
  whole : t.kind = number ∨ t.kind = percentage -> t.asNumber?.any Number.isInteger = true

theorem printed_of_isInteger {n : Number} (h : n.isInteger = true) : Printed n := by
  cases n with
  | integer => trivial
  | float => cases h

theorem Steady.legible {t : Token} (h : Steady t) : Legible t := by
  rcases h with ⟨hemitted, hsound, hkind, hplain, _, hwhole⟩
  have hkinds : forall k, k ∈ steadyKinds ->
      k.same .eof = false ∧ k.same comment = false ∧ k.same dimension = false := by
    decide
  rcases hkinds t.kind hkind with ⟨heof, hcomment, hdimension⟩
  replace heof := Kind.ne_of_same heof
  replace hdimension := Kind.ne_of_same hdimension
  rcases hemitted.cases with hlexeme | hremark
  · refine ⟨hlexeme, hsound, heof, hplain, ?_, fun hk => absurd hk hdimension⟩
    intro n hn
    have hnumeric : t.kind = number ∨ t.kind = percentage := by
      cases hlexeme with
      | numeric ht =>
          cases ht with
          | number => exact Or.inl rfl
          | percentage => exact Or.inr rfl
          | dimension => exact absurd rfl hdimension
      | _ => cases hn
    have hinteger := hwhole hnumeric
    rw [hn] at hinteger
    exact printed_of_isInteger hinteger
  · cases hremark
    exact absurd rfl (Kind.ne_of_same hcomment)

/-- Does the text end here, or go on with a blank? -/
def AtGap (rest : List Char) : Prop :=
  rest = [] ∨ exists cs, rest = ' ' :: cs

theorem AtGap.not_goesOnLone {rest : List Char} (h : AtGap rest) (c : Char) :
    goesOnLone c rest = false := by
  unfold goesOnLone
  rcases h with rfl | ⟨cs, rfl⟩ <;> split <;> rfl

theorem Steady.not_goesOn {t : Token} (h : Steady t) {rest : List Char} (hgap : AtGap rest) :
    goesOn t rest = false := by
  have hname : startsHashName rest = false := by
    rcases hgap with rfl | ⟨cs, rfl⟩ <;> rfl
  rcases h.legible with ⟨hlexeme, hsound, _, _⟩
  cases hlexeme with
  | bare hk =>
      have hbare : forall k, k ∈ bareKinds -> steadyKinds.any k.same = false ∨
          (k.same whitespace || k.same ident || k.same hash || k.same atKeyword ||
            k.same function) = false := by
        decide
      have hkinds := (hbare _ hk).resolve_left fun hnone => Kind.not_mem_of_same hnone h.kind_mem
      simp only [Bool.or_eq_false_iff] at hkinds
      simp only [goesOn, Token.is, hkinds, Bool.or_self, Bool.false_eq_true, if_false]
  | @name k cs l hk hcs =>
      simp only [nameKinds, List.mem_cons, List.not_mem_nil, or_false] at hk
      rcases hk with rfl | rfl | rfl | rfl
      · have hhead : rest.head? ≠ some '(' ∧ rest.head? ≠ some '>' := by
          rcases hgap with rfl | ⟨cs, rfl⟩ <;> simp
        have hcdc : startsCdc (Encoding.writeName cs ++ rest) = false :=
          not_cdc_writeName hcs hhead.2
        show (startsHashName rest || rest.head? == some '(' ||
          startsCdc (Encoding.writeName (String.ofList cs).toList ++ rest)) = false
        simp [hname, hhead.1, hcdc]
      · show (Text.sameFolded (String.ofList cs) "url" && _) = false
        rw [show Text.sameFolded (String.ofList cs) "url" = false from h.named rfl]
        rfl
      · exact hname
      · exact hname
  | enclosed hk => rcases hk with rfl | rfl <;> rfl
  | @lone c => exact hgap.not_goesOnLone c
  | numeric ht =>
      cases ht with
      | number =>
          show goesOnNumber rest = false
          rcases hgap with rfl | ⟨cs, rfl⟩ <;> rfl
      | percentage => rfl
      | dimension =>
          have hdimension : dimension ∈ steadyKinds := h.kind_mem
          exact absurd hdimension (Kind.not_mem_of_same (by decide))
  | broken => simp [Token.isFaulty] at hsound
  | stray => simp [Token.isFaulty] at hsound
  | badNumber => simp [Token.isFaulty] at hsound

theorem head_of_readsBack {t : Token} {rest : List Char} (h : dialect.ReadsBack t rest)
    (hkind : t.kind ≠ whitespace) :
    exists c cs, t.source.toList = c :: cs ∧ isBlank c = false := by
  rcases h with ⟨c, cs, hsource, hpass⟩
  refine ⟨c, cs, hsource, ?_⟩
  rw [Bool.eq_false_iff]
  intro hblank
  have hread := hpass {}
  rw [pass_of_claims (s := blankScanner) (by simp [scanners]) {} hblank] at hread
  have hunplaced : Token.bare whitespace = t.unplaced :=
    (List.cons.inj (Prod.mk.inj hread).1).1
  apply hkind
  rw [← show t.unplaced.kind = t.kind from Token.placed_kind t .unknown, ← hunplaced]
  rfl

/-!
## Runs
-/

/-- A run that starts and ends with such a token and has one blank token between
any two of them. -/
inductive Separated : List Token -> Prop where
  | single {t : Token} (ht : Steady t) : Separated [t]
  | cons {t w : Token} {ts : List Token} (ht : Steady t) (hw : w.unplaced = .bare whitespace)
      (hts : Separated ts) : Separated (t :: w :: ts)

theorem source_of_blank {w : Token} (hw : w.unplaced = .bare whitespace) : w.source = " " := by
  rcases Token.eq_of_unplaced (p := .none) (fun u hu => by cases hu) hw with ⟨l, rfl⟩
  show whitespace.encode " " = " "
  decide

theorem Separated.legible {ts : List Token} (h : Separated ts) :
    forall t, t ∈ ts -> Legible t := by
  induction h with
  | single ht => exact List.forall_mem_singleton.mpr ht.legible
  | cons ht hw _ ih =>
      rcases Token.eq_of_unplaced (p := .none) (fun u hu => by cases hu) hw with ⟨l, rfl⟩
      have hblank := legible_bare (k := whitespace) (by simp [bareKinds])
        (Kind.ne_of_same (by decide)) l
      exact List.forall_mem_cons.mpr ⟨ht.legible, List.forall_mem_cons.mpr ⟨hblank, ih⟩⟩

theorem Steady.head {t : Token} (h : Steady t) :
    exists c cs, t.source.toList = c :: cs ∧ isBlank c = false := by
  have hread := (h.legible.readsBack_iff []).mpr (h.not_goesOn (Or.inl rfl))
  refine head_of_readsBack hread ?_
  intro hkind
  have hmem := h.kind_mem
  rw [hkind] at hmem
  exact absurd hmem (Kind.not_mem_of_same (by decide))

theorem Separated.written {ts : List Token} (h : Separated ts) :
    exists c cs, (Token.runSource ts).toList = c :: cs ∧ Prepared (c :: cs) ∧
      isBlank c = false := by
  have hprepared := prepared_runSource h.legible
  have hhead : exists t us, ts = t :: us ∧ Steady t := by
    cases h with
    | single ht => exact ⟨_, _, rfl, ht⟩
    | cons ht _ _ => exact ⟨_, _, rfl, ht⟩
  rcases hhead with ⟨t, us, rfl, ht⟩
  rcases ht.head with ⟨c, cs, hsource, hblank⟩
  have hrun : (Token.runSource (t :: us)).toList = c :: (cs ++ (Token.runSource us).toList) := by
    simp [hsource]
  rw [hrun] at hprepared
  exact ⟨c, _, hrun, hprepared, hblank⟩

/-- The blanks are gaps, and what follows a blank does not start with one. -/
theorem Separated.standApart {ts : List Token} (h : Separated ts) : standApart ts = true := by
  induction h with
  | single ht =>
      rename_i t
      show (!goesOn t [] && true) = true
      rw [ht.not_goesOn (Or.inl rfl)]
      rfl
  | @cons t w ts ht hw hts ih =>
      rcases hts.written with ⟨c, cs, hrest, _, hblank⟩
      have hgap : AtGap (Token.runSource (w :: ts)).toList :=
        Or.inr ⟨c :: cs, by simp [source_of_blank hw, hrest]⟩
      have hgoes : goesOn w (Token.runSource ts).toList = false := by
        rcases Token.eq_of_unplaced (p := .none) (fun u hu => by cases hu) hw with ⟨l, rfl⟩
        rw [hrest]
        exact hblank
      rw [Css.standApart, ht.not_goesOn hgap, Css.standApart, hgoes, ih]
      rfl

theorem Separated.tokensFrom {ts : List Token} (h : Separated ts) (o : Options) (l : Location) :
    (dialect.tokensFrom o l (Token.runSource ts).toList).map Token.unplaced =
      ts.map Token.unplaced ++ [Token.eof] :=
  ((readsBackAll_iff h.legible).mpr h.standApart).tokensFrom o l

/-- Written and cut again, a separated run keeps its kinds and values. -/
theorem tokenize_runSource (o : Options) {ts : List Token} (h : Separated ts) :
    (tokenize o (Token.runSource ts)).map Token.unplaced = ts.map Token.unplaced ++ [.eof] := by
  rcases h.written with ⟨c, cs, hsource, hprepared, _⟩
  show (dialect.tokensFrom o .start (prepare (Token.runSource ts).toList)).map _ = _
  rw [hsource, prepare_of_prepared hprepared, ← hsource]
  exact h.tokensFrom o .start

/-- A lone hyphen, a name that looks like the end of a hidden part, a digit that is
a name, and a negative percentage. -/
def misleading : List Token :=
  [⟨ident, .text "-", ⟨1, 1, 0⟩, none⟩, ⟨whitespace, .none, ⟨1, 3, 2⟩, none⟩,
    ⟨ident, .text "-->", ⟨1, 4, 3⟩, none⟩, ⟨whitespace, .none, ⟨1, 8, 7⟩, none⟩,
    ⟨hash, .text "1", ⟨1, 9, 8⟩, none⟩, ⟨whitespace, .none, ⟨1, 11, 10⟩, none⟩,
    ⟨percentage, .dimension (.integer (-5)) "%", ⟨1, 12, 11⟩, none⟩]

theorem tokenize_runSource_misleading :
    Separated misleading ∧
      (tokenize {} (Token.runSource misleading)).map Token.unplaced =
        misleading.map Token.unplaced ++ [.eof] := by
  have hcut : tokenize {} "\\- --\\> #1 -5%" = misleading ++ [Token.eof.placed ⟨1, 15, 14⟩] := by
    with_unfolding_all rfl
  have hemitted : forall t, t ∈ misleading -> Emitted t := by
    intro t ht
    refine ⟨{}, "\\- --\\> #1 -5%", ?_⟩
    rw [hcut]
    exact List.mem_append_left _ ht
  have hsteady : forall t, t ∈ misleading -> t.isFaulty = false -> t.kind ∈ steadyKinds ->
      t.is string = false -> t.is function = false ->
      ((t.is number || t.is percentage) = true -> t.asNumber?.any Number.isInteger = true) ->
        Steady t :=
    fun t ht hsound hkind hstring hfunction hwhole =>
      { emitted := hemitted t ht
        sound := hsound
        kind_mem := hkind
        plain := fun hk => absurd hk (Kind.ne_of_same hstring)
        named := fun hk => absurd hk (Kind.ne_of_same hfunction)
        whole := fun hk => hwhole (by rcases hk with hk | hk <;> simp [Token.is, hk]) }
  have hseparated : Separated misleading := by
    refine .cons (hsteady _ ?_ ?_ ?_ ?_ ?_ ?_) rfl (.cons (hsteady _ ?_ ?_ ?_ ?_ ?_ ?_) rfl
      (.cons (hsteady _ ?_ ?_ ?_ ?_ ?_ ?_) rfl (.single (hsteady _ ?_ ?_ ?_ ?_ ?_ ?_))))
    all_goals first
      | decide
      | simp [misleading, steadyKinds]
  exact ⟨hseparated, tokenize_runSource {} hseparated⟩

end Css
end StyleTokens
