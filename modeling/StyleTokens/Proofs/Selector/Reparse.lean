import StyleTokens.Proofs.Selector.Grammar

/-!
# Selectors that were read

What a selector was read from says what its parts can be: names are those of tokens,
pseudo-classes and functions are registered, and the arguments of a function were read
from their own tokens.  So the text of the selector can be read again, unless one type
is written behind another one or the arguments of a function run together.
-/

namespace StyleTokens

open Rewrite (unplacing)

/-!
## Tokens at another place
-/

namespace Css

theorem isFaulty_of_unplaced {t u : Token} (h : t.unplaced = u.unplaced) :
    t.isFaulty = u.isFaulty := by
  have hkind : t.unplaced.kind = u.unplaced.kind := congrArg Token.kind h
  have herror : t.unplaced.error = u.unplaced.error := congrArg Token.error h
  simp only [Token.unplaced, Token.placed_kind, Token.placed_error] at hkind herror
  rw [Token.isFaulty, Token.isFaulty, hkind, herror]

theorem Lexeme.of_unplaced {t u : Token} (h : Lexeme u) (heq : t.unplaced = u.unplaced)
    (hsound : t.isFaulty = false) : Lexeme t := by
  rw [isFaulty_of_unplaced heq] at hsound
  rcases h.leaf hsound with ⟨k, p, l, rfl, hp⟩
  rw [hp.unplaced] at heq
  rcases hp.eq_of_unplaced heq with ⟨m, rfl⟩
  have hmoved := h.placed m
  have hplaced : Token.placed ⟨k, p, l, none⟩ m = ⟨k, p, m, none⟩ := by
    cases p <;> first | rfl | exact hp.elim
  rw [hplaced] at hmoved
  exact hmoved

end Css

/-!
## Values of a run
-/

/-- A value as it is read from a style sheet without comments: a token that was cut, or
a construct that is read from its own tokens. -/
inductive ReadValue (n : Nesting) : Token -> Prop where
  | lexeme {t : Token} (h : Css.Lexeme t) : ReadValue n t
  | construct {c : Construct} {values : List Token} {l : Location}
      (hsettled : (c.token values l).Settled n)
      (hflat : forall t, t ∈ (c.token values l).flat -> t.isFaulty = false ->
        Css.Lexeme t ∧ t.isEof = false) :
      ReadValue n (c.token values l)

section

variable {n : Nesting} {t : Token} {c : Construct} {ts : List Token}

theorem readValue_readComponent
    (hcut : forall u, u ∈ t :: ts -> Css.Emitted u ∧ Css.Lexeme u) (heof : t.isEof = false)
    (ho : t.opens? = some c) (h : (readComponent n t ts).errors = []) :
    ReadValue n (readComponent n t ts).value := by
  have hemitted : forall u, u ∈ t :: ts -> Css.Emitted u := fun u hu => (hcut u hu).1
  have hsettled := settled_of_readComponent hemitted heof ho h
  rcases unplaced_flat_readComponent hemitted h with ⟨taken, htaken, hflat⟩
  rw [readComponent_eq_parseContents n ts ho] at h hsettled htaken hflat ⊢
  refine .construct hsettled ?_
  rcases settles_parseContents h with ⟨front, hfront, hfree, _⟩
  have hsame : taken = front := List.append_cancel_right (htaken.trans hfront.symm)
  have hsomewhere : forall v, v ∈ t :: taken -> v ∈ t :: ts ∧ v.isEof = false := by
    intro v hv
    constructor
    · rw [← htaken, ← List.cons_append]
      exact List.mem_append_left _ hv
    · rw [hsame] at hv
      exact (hfree.cons heof) v hv
  intro u hu hsound
  have hmem : u.unplaced ∈ (t :: taken).map Token.unplaced := by
    rw [← hflat]
    exact List.mem_map_of_mem hu
  rcases List.mem_map.mp hmem with ⟨v, hv, heq⟩
  rcases hsomewhere v hv with ⟨hin, hfreev⟩
  refine ⟨(hcut v hin).2.of_unplaced heq.symm hsound, ?_⟩
  have hkind : v.kind = u.kind := by
    have hkinds := congrArg Token.kind heq
    simpa only [Token.unplaced, Token.placed_kind] using hkinds
  rw [Token.isEof, Token.is, ← hkind]
  exact hfreev

theorem readValue_parseRun (n : Nesting) {stop : Predicate} (hstop : StopsAtEof stop)
    (ts : List Token) (hcut : forall u, u ∈ ts -> Css.Emitted u ∧ Css.Lexeme u)
    (h : (parseRun n stop ts).errors = []) :
    forall v, v ∈ (parseRun n stop ts).value -> ReadValue n v := by
  induction ts using parseRun_induction n stop with
  | nil =>
      rw [parseRun_of_standsAt (standsAt_nil stop)]
      intro v hv
      cases hv
  | stopped t ts ht =>
      rw [parseRun_of_standsAt (standsAt_cons ts ht)]
      intro v hv
      cases hv
  | value t ts ht ih =>
      rw [parseRun_cons ts ht] at h ⊢
      rcases List.append_eq_nil_iff.mp h with ⟨hfirst, hothers⟩
      have hrest := readComponent_rest_suffix n t ts
      have htail := ih (fun u hu => hcut u (List.mem_cons_of_mem t (hrest.mem hu))) hothers
      refine List.forall_mem_cons.mpr ⟨?_, htail⟩
      cases ho : t.opens? with
      | none =>
          rw [readComponent_of_opens_none n ts ho]
          exact .lexeme (hcut t List.mem_cons_self).2
      | some c => exact readValue_readComponent hcut (hstop.not_isEof ht) ho hfirst

end

namespace Simple

variable {r : SelectorRegistry} {n : Nesting}

theorem isName_lower {name : String} (h : IsName name) : IsName (Text.lower name) := by
  rcases h with ⟨hne, hzero⟩
  constructor
  · rwa [ne_eq, Text.lower_eq_empty_iff]
  · rwa [Text.mem_lower_iff (by decide)]

theorem isName_of_lexeme {t : Token} {k : Kind} (h : Css.Lexeme t) (his : t.is k = true)
    (hk : k ∈ [Css.ident, Css.hash, Css.function]) :
    IsName t.text ∧ t.payload = .text t.text := by
  have hnames : forall k, k ∈ [Css.ident, Css.hash, Css.function] -> k ∈ Css.nameKinds := by
    simp [Css.nameKinds]
  have hother : forall k, k ∈ Css.bareKinds ++ Css.numericKinds ->
      Css.nameKinds.any k.same = false := by
    decide
  have hcontent : k ∈ Css.comment :: Css.contentKinds := by
    simp [Css.contentKinds, hnames k hk]
  have hkind : t.kind = k :=
    Css.kind_of_same (List.mem_cons_of_mem _ h.kind_mem) hcontent his
  have hname : t.kind ∈ Css.nameKinds := by
    rw [hkind]
    exact hnames k hk
  cases h with
  | bare hk => exact absurd hname (Kind.not_mem_of_same (hother _ (by simp [hk])))
  | @name k cs l _ hcs hzero =>
      refine ⟨?_, rfl⟩
      show IsName (String.ofList cs)
      exact ⟨by simpa using hcs, by simpa using hzero⟩
  | enclosed hk =>
      rcases hk with rfl | rfl
      · exact absurd hname (Kind.not_mem_of_same (k := Css.string) (by decide))
      · exact absurd hname (Kind.not_mem_of_same (k := Css.url) (by decide))
  | lone => exact absurd hname (Kind.not_mem_of_same (k := Css.delim) (by decide))
  | numeric h => exact absurd hname (Kind.not_mem_of_same (hother _ (by simp [h.kind_mem])))
  | broken hk =>
      rcases hk with rfl | rfl
      · exact absurd hname (Kind.not_mem_of_same (k := Css.badString) (by decide))
      · exact absurd hname (Kind.not_mem_of_same (k := Css.badUrl) (by decide))
  | stray => exact absurd hname (Kind.not_mem_of_same (k := Css.delim) (by decide))
  | badNumber => exact absurd hname (Kind.not_mem_of_same (k := Css.badNumber) (by decide))

/-!
## What a simple selector was read from
-/

/-- The tokens that one simple selector is read from. -/
inductive ReadFrom (r : SelectorRegistry) : List Token -> Simple -> Prop where
  | type {t : Token} (his : t.is Css.ident = true) (hc : isCombinator t = false) :
      ReadFrom r [t] (type (Text.lower t.text))
  | identifier {t : Token} (his : t.is Css.hash = true) (hc : isCombinator t = false) :
      ReadFrom r [t] (identifier t.text)
  | universal {t : Token} : ReadFrom r [t] universal
  | className {t u : Token} (his : u.is Css.ident = true) : ReadFrom r [t, u] (className u.text)
  | pseudoClass {t u : Token} (his : u.is Css.ident = true)
      (h : r.hasPseudoClass (Text.lower u.text) = true) :
      ReadFrom r [t, u] (pseudoClass (Text.lower u.text))
  | function {t u : Token} {c : Call} {f : SelectorFunction} (hcall : u.asCall? = some c)
      (hf : r.function? (Text.lower c.name) = some f) (hprepared : f.prepare c.values = .ok ()) :
      ReadFrom r [t, u] (function ⟨Text.lower c.name, c.values, f⟩)

theorem Part.readFrom {front : List Token} {s : Simple} (h : Part .byCharacter r front s) :
    ReadFrom r front s := by
  cases h with
  | type h =>
      obtain ⟨his, hc⟩ := Bool.and_eq_true_iff.mp h
      exact .type his (by simpa using hc)
  | identifier h =>
      obtain ⟨his, hc⟩ := Bool.and_eq_true_iff.mp h
      exact .identifier his (by simpa using hc)
  | universal h => exact .universal
  | className h hu => exact .className hu
  | pseudoClass h hu hname => exact .pseudoClass hu hname
  | function h hcall hf hprepared => exact .function hcall hf hprepared

end Simple

theorem ReadValue.isName {n : Nesting} {t : Token} {k : Kind} (h : ReadValue n t)
    (his : t.is k = true) (hk : k ∈ [Css.ident, Css.hash]) :
    Simple.IsName t.text ∧ t.payload = .text t.text := by
  cases h with
  | lexeme h => exact Simple.isName_of_lexeme h his (by simp at hk ⊢; tauto)
  | @construct c values l =>
      have hkinds : forall k, k ∈ [Css.ident, Css.hash] ->
          Css.simpleBlock.same k = false ∧ Css.functionBlock.same k = false := by
        decide
      cases c with
      | block =>
          rw [show Token.is _ k = Css.simpleBlock.same k from rfl, (hkinds k hk).1] at his
          cases his
      | call =>
          rw [show Token.is _ k = Css.functionBlock.same k from rfl, (hkinds k hk).2] at his
          cases his

theorem ReadValue.of_asCall {n : Nesting} {t : Token} {c : Call} (h : ReadValue n t)
    (hcall : t.asCall? = some c) :
    ((Construct.call c.name).token c.values c.location).Settled n ∧
      forall u, u ∈ ((Construct.call c.name).token c.values c.location).flat ->
        u.isFaulty = false -> Css.Lexeme u ∧ u.isEof = false := by
  cases h with
  | lexeme h =>
      cases h with
      | numeric h => cases h <;> cases hcall
      | _ => cases hcall
  | @construct d values l hsettled hflat =>
      cases d with
      | block => cases hcall
      | call name =>
          rcases Option.some.inj hcall with rfl
          exact ⟨hsettled, hflat⟩

namespace FunctionSelector

/-- The arguments of the function come back from their text, and the function does not
look at their places. -/
structure Rereadable (f : FunctionSelector) : Prop where
  placeless : f.function.IgnoresPlaces
  sound : forall t, t ∈ Token.runFlat f.args -> t.isFaulty = false
  faithful : forall t, t ∈ Token.runFlat f.args -> Css.Faithful t
  source : Token.runSource f.args = Token.runSource (Token.runFlat f.args)
  apart : Css.standApart f.call.flat = true

end FunctionSelector

namespace FunctionSelector

variable {r : SelectorRegistry}

theorem Rereadable.readable {c : Call} {f : SelectorFunction}
    (hvalue : exists t, ReadValue (.ofOptions {}) t ∧ t.asCall? = some c)
    (hf : r.function? (Text.lower c.name) = some f) (hprepared : f.prepare c.values = .ok ())
    (h : Rereadable ⟨Text.lower c.name, c.values, f⟩) :
    Readable r ⟨Text.lower c.name, c.values, f⟩ := by
  rcases hvalue with ⟨t, ht, hcall⟩
  rcases ht.of_asCall hcall with ⟨hsettled, hflat⟩
  have hname : Simple.IsName c.name :=
    (Simple.isName_of_lexeme (hflat _ List.mem_cons_self rfl).1 (k := Css.function) rfl (by simp)).1
  refine ⟨Text.lower_lower c.name, hf, hprepared, h.placeless, h.source, ?_, h.apart,
    hsettled.rename _ _⟩
  rw [flat_call]
  refine List.forall_mem_cons.mpr ⟨?_, ?_⟩
  · exact Simple.legible_name (by simp [Css.nameKinds]) (Simple.isName_lower hname)
  · intro u hu
    rcases List.mem_append.mp hu with hu | hu
    · have hmem : u ∈ ((Construct.call c.name).token c.values c.location).flat := by
        rw [flat_construct]
        exact List.mem_cons_of_mem _ (List.mem_append_left _ hu)
      rcases hflat u hmem (h.sound u hu) with ⟨hlexeme, heof⟩
      refine ⟨hlexeme, h.sound u hu, ?_, h.faithful u hu⟩
      intro hkind
      rw [Token.isEof, Token.is, hkind] at heof
      exact absurd heof (by decide)
    · rcases List.mem_singleton.mp hu with rfl
      exact Css.legible_bare (by simp [Css.bareKinds]) (Kind.ne_of_same (by decide)) _

end FunctionSelector

namespace Simple

variable {r : SelectorRegistry}

theorem ReadFrom.readable {front : List Token} {s : Simple} (h : ReadFrom r front s)
    (hfront : forall t, t ∈ front -> ReadValue (.ofOptions {}) t)
    (hfunction : forall f, s = Simple.function f -> f.Rereadable) : s.Readable r := by
  cases h with
  | @type t his hc =>
      rcases (hfront t (by simp)).isName his (by simp) with ⟨hname, htext⟩
      refine ⟨isName_lower hname, ?_⟩
      rw [isCombinatorName_lower, ← isCombinatorName_of_text htext, hc]
  | @identifier t his hc =>
      rcases (hfront t (by simp)).isName his (by simp) with ⟨hname, htext⟩
      refine ⟨hname, ?_⟩
      rw [← isCombinatorName_of_text htext, hc]
  | universal => trivial
  | @className t u his => exact ((hfront u (by simp)).isName his (by simp)).1
  | @pseudoClass t u his h =>
      have hname := ((hfront u (by simp)).isName his (by simp)).1
      exact ⟨isName_lower hname, Text.lower_lower u.text, h⟩
  | @function t u c f hcall hf hprepared =>
      exact (hfunction _ rfl).readable ⟨u, hfront u (by simp), hcall⟩ hf hprepared

theorem readable_readAll {ts : List Token} {group : List Simple} (h : readAll r ts = .ok group)
    (hts : forall t, t ∈ ts -> ReadValue (.ofOptions {}) t)
    (hfunction : forall f, function f ∈ group -> f.Rereadable) :
    forall s, s ∈ group -> s.Readable r := by
  intro s hs
  obtain ⟨front, hfront, hpart⟩ := (compound_of_readAll h).exists_front_of_mem hs
  apply hpart.readFrom.readable
  · exact fun t ht => hts t (hfront t ht)
  · rintro f rfl
    exact hfunction f hs

end Simple

namespace Selector

variable {r : SelectorRegistry}

/-!
## Several groups
-/

theorem mem_of_groups {ts run : List Token} (h : run ∈ groups ts) {t : Token} (ht : t ∈ run) :
    t ∈ ts := by
  induction ts generalizing run with
  | nil =>
      rcases List.mem_singleton.mp h with rfl
      cases ht
  | cons u ts ih =>
      rw [groups] at h
      split at h
      · rcases List.mem_cons.mp h with rfl | h
        · cases ht
        · exact List.mem_cons_of_mem u (ih h ht)
      · split at h
        · rename_i hnil
          exact absurd hnil (groups_ne_nil ts)
        · rename_i group rest hgroups
          rcases List.mem_cons.mp h with rfl | h
          · rcases List.mem_cons.mp ht with rfl | ht
            · exact List.mem_cons_self
            · exact List.mem_cons_of_mem u (ih (by rw [hgroups]; exact List.mem_cons_self) ht)
          · exact List.mem_cons_of_mem u
              (ih (by rw [hgroups]; exact List.mem_cons_of_mem group h) ht)

theorem covered_readable {runs : List (List Token)} {groups : List (List Simple)}
    (h : List.Forall₂ (fun run group => Simple.readAll r (trimGroup run) = .ok group) runs groups)
    (hruns : runs ≠ []) (hvalues : forall run, run ∈ runs -> forall t, t ∈ run ->
      ReadValue (.ofOptions {}) t)
    (hfunction : forall g, g ∈ groups -> forall f, Simple.function f ∈ g -> f.Rereadable) :
    Covered (Simple.Readable r) groups := by
  constructor
  · rintro rfl
    exact hruns (List.forall₂_nil_right_iff.mp h)
  · clear hruns
    induction h with
    | nil =>
        intro g hg
        cases hg
    | @cons run group runs groups hread _ ih =>
        refine List.forall_mem_cons.mpr ⟨?_, ?_⟩
        · refine Simple.readable_readAll hread ?_ (hfunction group List.mem_cons_self)
          intro t ht
          exact hvalues run List.mem_cons_self t (mem_of_trimGroup ht)
        · exact ih (fun run' hrun => hvalues run' (List.mem_cons_of_mem run hrun))
            (fun g hg => hfunction g (List.mem_cons_of_mem group hg))

theorem readGroups_eq_ok {l : Location} {runs : List (List Token)}
    (h : forall result, result ∈ readGroups r l runs -> exists s, result = .ok s) :
    exists groups, readGroups r l runs = groups.map (fun group => .ok (ofSimples group)) ∧
      List.Forall₂ (fun run group => Simple.readAll r (trimGroup run) = .ok group) runs groups := by
  induction runs generalizing l with
  | nil => exact ⟨[], rfl, .nil⟩
  | cons run runs ih =>
      rw [readGroups] at h ⊢
      rcases h _ List.mem_cons_self with ⟨s, hs⟩
      rcases readGroup_eq_ok_iff.mp hs with ⟨group, _, hread, rfl⟩
      rcases ih fun result hresult => h result (List.mem_cons_of_mem _ hresult) with
        ⟨groups, hgroups, hall⟩
      refine ⟨group :: groups, ?_, .cons hread hall⟩
      rw [hs, hgroups]
      rfl

end Selector

namespace RuleSelector

open Selector

variable {r : SelectorRegistry}

/-- A selector that was read without an error is that of the groups between the commas. -/
theorem read_eq_some {values : List Token} {u : RuleSelector}
    (h : read r values = ⟨some u, []⟩) :
    exists groups, u = ofSelector (ofGroups groups) ∧
      List.Forall₂ (fun run group => Simple.readAll r (trimGroup run) = .ok group)
        (Selector.groups values) groups := by
  have hresults : forall result,
      result ∈ readGroups r (Queue.location values) (Selector.groups values) ->
        exists s, result = .ok s := by
    intro result hresult
    have herrors := congrArg Outcome.errors h
    cases result with
    | ok s => exact ⟨s, rfl⟩
    | error e =>
        have hnone := List.filterMap_eq_nil_iff.mp herrors _ hresult
        cases hnone
  rcases readGroups_eq_ok hresults with ⟨groups, hgroups, hall⟩
  have hne : groups ≠ [] := by
    rintro rfl
    rw [List.forall₂_nil_right_iff] at hall
    exact groups_ne_nil values hall
  rw [read_ofGroups hne hgroups] at h
  exact ⟨groups, (Option.some.inj (congrArg Outcome.value h)).symm, hall⟩

/-- The text of a selector that was read without an error is read without one again, as
a selector that matches the same elements and weighs the same, if no type is written
behind another one and the arguments of its functions come back. -/
theorem parse_text_parse {s : String} {u : RuleSelector} (h : parse r s = ⟨some u, []⟩)
    (hapart : forall g, g ∈ u.selector.compounds -> Simple.TypesApart g)
    (hfunction : forall g, g ∈ u.selector.compounds ->
      forall f, Simple.function f ∈ g -> f.Rereadable) :
    exists v, parse r u.text = ⟨some v, []⟩ ∧ (forall e, v.accepts e = u.accepts e) ∧
      v.specificity = u.specificity := by
  rcases parse_eq_some_iff.mp h with ⟨hrun, hread⟩
  have hcut : forall t, t ∈ Css.tokenize {} s -> Css.Emitted t ∧ Css.Lexeme t := by
    intro t ht
    refine ⟨⟨{}, s, ht⟩, ?_⟩
    rcases Css.lexeme_of_mem_tokenize ht with hlexeme | ⟨hkeep, _⟩
    · exact hlexeme
    · cases hkeep
  have hstop : StopsAtEof Token.isEof := fun _ ht => ht
  have hvalues := readValue_parseRun (.ofOptions {}) hstop _ hcut hrun
  rcases read_eq_some hread with ⟨groups, rfl, hall⟩
  have hcompounds : (ofSelector (ofGroups groups)).selector.compounds = groups := by
    show (ofGroups groups).flatten.compounds = groups
    rw [compounds_flatten, compounds_ofGroups]
  have hreadable : Covered (Simple.Readable r) groups := by
    refine covered_readable hall (groups_ne_nil _) ?_ (hcompounds ▸ hfunction)
    intro run hmem t ht
    exact hvalues t (mem_of_groups hmem ht)
  rcases parse_text _ (hcompounds.symm ▸ hreadable) hapart with ⟨v, hparse, haccepts, hweight⟩
  refine ⟨v, hparse, haccepts, ?_⟩
  rw [hweight, hcompounds, ← specificity_ofGroups hreadable.1, ← specificity_flatten]
  rfl

def withAlways : SelectorRegistry :=
  { SelectorRegistry.standard with functions := [("f", .always)] }

def argumentA : Token := ⟨Css.ident, .text "a", ⟨1, 4, 3⟩, none⟩

def calling : RuleSelector :=
  ofSelector (ofGroups [[.function ⟨"f", [argumentA], .always⟩, .type "x"], [.universal]])

theorem parse_calling : parse withAlways ":F(a)X, *" = ⟨some calling, []⟩ := by
  have hcut : Css.tokenize {} ":F(a)X, *" =
      [⟨Css.colon, .none, ⟨1, 1, 0⟩, none⟩, ⟨Css.function, .text "F", ⟨1, 2, 1⟩, none⟩, argumentA,
        ⟨Css.closeParen, .none, ⟨1, 5, 4⟩, none⟩, ⟨Css.ident, .text "X", ⟨1, 6, 5⟩, none⟩,
        ⟨Css.comma, .none, ⟨1, 7, 6⟩, none⟩, ⟨Css.whitespace, .none, ⟨1, 8, 7⟩, none⟩,
        ⟨Css.delim, .char '*', ⟨1, 9, 8⟩, none⟩, Token.eof.placed ⟨1, 10, 9⟩] := by
    show Css.dialect.tokensFrom {} .start [':', 'F', '(', 'a', ')', 'X', ',', ' ', '*'] = _
    with_unfolding_all rfl
  have hargs : forall ts,
      parseRun (Nesting.ofOptions {}).deeper (Construct.call "F").ends
          (argumentA :: ⟨Css.closeParen, .none, ⟨1, 5, 4⟩, none⟩ :: ts) =
        ⟨[argumentA], [], ⟨Css.closeParen, .none, ⟨1, 5, 4⟩, none⟩ :: ts⟩ := by
    intro ts
    rw [parseRun_cons _ (by decide), readComponent_of_opens_none _ _ (by rfl),
      parseRun_of_standsAt (standsAt_cons _ (by decide))]
    rfl
  have hcall : forall ts,
      readComponent (.ofOptions {}) ⟨Css.function, .text "F", ⟨1, 2, 1⟩, none⟩
          (argumentA :: ⟨Css.closeParen, .none, ⟨1, 5, 4⟩, none⟩ :: ts) =
        ⟨(Construct.call "F").token [argumentA] ⟨1, 2, 1⟩, [], ts⟩ := by
    intro ts
    rw [readComponent_eq_parseContents (c := .call "F") _ _ rfl,
      parseContents_of_not_full (by decide), hargs]
    rfl
  have hsingle : forall t ts, t.isEof = false -> t.opens? = none ->
      parseRun (.ofOptions {}) Token.isEof (t :: ts) =
        (Parsed.mk t [] ts).followedBy (parseRun (.ofOptions {}) Token.isEof ts) := by
    intro t ts ht ho
    rw [parseRun_cons ts ht, readComponent_of_opens_none _ ts ho]
  have hrun : parseRun (.ofOptions {}) Token.isEof (Css.tokenize {} ":F(a)X, *") =
      ⟨[⟨Css.colon, .none, ⟨1, 1, 0⟩, none⟩, (Construct.call "F").token [argumentA] ⟨1, 2, 1⟩,
        ⟨Css.ident, .text "X", ⟨1, 6, 5⟩, none⟩, ⟨Css.comma, .none, ⟨1, 7, 6⟩, none⟩,
        ⟨Css.whitespace, .none, ⟨1, 8, 7⟩, none⟩, ⟨Css.delim, .char '*', ⟨1, 9, 8⟩, none⟩],
        [], [Token.eof.placed ⟨1, 10, 9⟩]⟩ := by
    rw [hcut, hsingle _ _ rfl rfl, parseRun_cons _ (by decide), hcall]
    rw [hsingle _ _ rfl rfl, hsingle _ _ rfl rfl, hsingle _ _ rfl rfl, hsingle _ _ rfl rfl,
      parseRun_of_standsAt (standsAt_cons [] rfl)]
    rfl
  rw [parse_eq_some_iff, hrun]
  exact ⟨rfl, rfl⟩

theorem parse_text_parse_calling :
    parse withAlways ":F(a)X, *" = ⟨some calling, []⟩ ∧
      (forall g, g ∈ calling.selector.compounds -> Simple.TypesApart g) ∧
      (forall g, g ∈ calling.selector.compounds ->
        forall f, Simple.function f ∈ g -> f.Rereadable) ∧
      exists v, parse withAlways calling.text = ⟨some v, []⟩ ∧
        (forall e, v.accepts e = calling.accepts e) ∧ v.specificity = calling.specificity := by
  have hcompounds : calling.selector.compounds =
      [[.function ⟨"f", [argumentA], .always⟩, .type "x"], [.universal]] := rfl
  have hapart : forall g, g ∈ calling.selector.compounds -> Simple.TypesApart g := by
    rw [hcompounds]
    refine List.forall_mem_cons.mpr ⟨List.isChain_singleton _, List.forall_mem_singleton.mpr ?_⟩
    exact List.isChain_singleton _
  have hargument : forall t, t ∈ Token.runFlat [argumentA] -> t = argumentA := fun t ht =>
    List.mem_singleton.mp ht
  have hfunction : forall g, g ∈ calling.selector.compounds ->
      forall f, Simple.function f ∈ g -> f.Rereadable := by
    intro g hg f hf
    have hcall : f = ⟨"f", [argumentA], .always⟩ := by
      rw [hcompounds] at hg
      simp only [List.mem_cons, List.not_mem_nil, or_false] at hg
      rcases hg with rfl | rfl
      · simpa using hf
      · simp at hf
    rw [hcall]
    refine ⟨fun _ _ _ => ⟨rfl, fun _ => rfl⟩, ?_, ?_, by decide, by decide⟩
    · intro t ht
      rw [hargument t ht]
      rfl
    · intro t ht
      rw [hargument t ht]
      exact .of_kind (Kind.ne_of_same (by decide)) (Kind.ne_of_same (by decide)) rfl
  exact ⟨parse_calling, hapart, hfunction, parse_text_parse parse_calling hapart hfunction⟩

def parted : RuleSelector := ofSelector (ofGroups [[.type "a", .type "b"]])

/-- The two types are written as one, which matches elements that the two do not. -/
theorem parse_text_parse_parted :
    parse .standard "a/**/b" = ⟨some parted, []⟩ ∧
      exists v, parse .standard parted.text = ⟨some v, []⟩ ∧
        v.accepts (.ofLists "ab" none [] []) = true ∧
        parted.accepts (.ofLists "ab" none [] []) = false ∧
        v.specificity = ⟨0, 0, 1⟩ ∧ parted.specificity = ⟨0, 0, 2⟩ := by
  have hrun : parseRun (.ofOptions {}) Token.isEof (Css.tokenize {} "a/**/b") =
      ⟨[⟨Css.ident, .text "a", ⟨1, 1, 0⟩, none⟩, ⟨Css.ident, .text "b", ⟨1, 6, 5⟩, none⟩], [],
        [Token.eof.placed ⟨1, 7, 6⟩]⟩ := by
    with_unfolding_all rfl
  have hagain : parseRun (.ofOptions {}) Token.isEof (Css.tokenize {} "ab") =
      ⟨[⟨Css.ident, .text "ab", ⟨1, 1, 0⟩, none⟩], [], [Token.eof.placed ⟨1, 3, 2⟩]⟩ := by
    with_unfolding_all rfl
  have htext : parted.text = "ab" := by
    rfl
  refine ⟨?_, ofSelector (.simple (.type "ab")), ?_, by decide, by decide, rfl, rfl⟩
  · rw [parse_eq_some_iff, hrun]
    exact ⟨rfl, rfl⟩
  · rw [htext, parse_eq_some_iff, hagain]
    exact ⟨rfl, rfl⟩

end RuleSelector

end StyleTokens
