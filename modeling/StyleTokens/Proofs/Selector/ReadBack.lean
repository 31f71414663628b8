import StyleTokens.Proofs.Selector.Spelling

/-!
# Selectors are read back

The text of a selector is read without an error, as a selector that matches the same
elements and weighs the same.  The simple selectors come back one by one, types in
lower case and the arguments of functions at other places, in the order in which they
were written; the groups come back one by one between the commas.
-/

namespace StyleTokens

open Rewrite (unplacing)

/-!
## Tokens at some place
-/

theorem eq_of_unplacing {p : Payload} (h : IsLeaf p) {k : Kind} {t : Token}
    (ht : unplacing.token t = .of k p) : exists l, t = ⟨k, p, l, none⟩ := by
  rcases t with ⟨kind, payload, location, error⟩
  cases congrArg Token.kind ht
  cases congrArg Token.error ht
  have hpayload : unplacing.payload payload = p := congrArg Token.payload ht
  refine ⟨location, ?_⟩
  cases payload with
  | inner u => rw [← hpayload] at h; exact h.elim
  | block b => rw [← hpayload] at h; exact h.elim
  | call c => rw [← hpayload] at h; exact h.elim
  | _ => rw [← hpayload]; rfl

theorem eq_call_of_unplacing {f : FunctionSelector} {t : Token}
    (ht : unplacing.token t = unplacing.token f.call) :
    exists args l l', t = ⟨Css.functionBlock, .call ⟨f.name, args, l⟩, l', none⟩ ∧
      args.map unplacing.token = f.args.map unplacing.token := by
  rcases t with ⟨kind, payload, location, error⟩
  cases congrArg Token.kind ht
  cases congrArg Token.error ht
  have hpayload : unplacing.payload payload = .call ⟨f.name, unplacing.run f.args, .unknown⟩ :=
    congrArg Token.payload ht
  cases payload with
  | call c =>
      rcases c with ⟨name, args, l⟩
      have hcall : Call.mk name (unplacing.run args) .unknown =
          ⟨f.name, unplacing.run f.args, .unknown⟩ := Payload.call.inj hpayload
      cases congrArg Call.name hcall
      refine ⟨args, l, location, rfl, ?_⟩
      rw [← Rewrite.unplacing_run, ← Rewrite.unplacing_run]
      exact congrArg Call.values hcall
  | _ => cases hpayload

namespace Simple

/-!
## Simple selectors
-/

def Alike (s u : Simple) : Prop :=
  s.specificity = u.specificity ∧ forall e, s.accepts e = u.accepts e

variable {r : SelectorRegistry} {name : String} {l : Location}

theorem readAll_cons (t : Token) (ts : List Token) :
    readAll r (t :: ts) =
      if t.isBlank || isCombinator t then .error (.combinator t.location)
      else if t.is Css.ident then (type (Text.lower t.text)).before (readAll r ts)
      else if t.is Css.hash then (identifier t.text).before (readAll r ts)
      else if t.asChar? == some '*' then universal.before (readAll r ts)
      else if t.asChar? == some '.' then
        match ts with
        | u :: us =>
            if u.is Css.ident then (className u.text).before (readAll r us)
            else invalid "." t.location
        | [] => invalid "." t.location
      else if t.is Css.colon then
        match ts with
        | u :: us =>
            match readPseudo r u with
            | .ok s => s.before (readAll r us)
            | .error e => .error e
        | [] => invalid ":" t.location
      else invalid t.source t.location := by
  exact readAll.eq_def r (t :: ts)

theorem readAll_type (h : isCombinatorName name = false) (more : List Token) :
    readAll r (⟨Css.ident, .text name, l, none⟩ :: more) =
      (type (Text.lower name)).before (readAll r more) := by
  have hfirst : (Token.isBlank ⟨Css.ident, .text name, l, none⟩ ||
    isCombinator ⟨Css.ident, .text name, l, none⟩) = false := h
  rw [readAll_cons, hfirst]
  rfl

theorem readAll_identifier (h : isCombinatorName name = false) (more : List Token) :
    readAll r (⟨Css.hash, .text name, l, none⟩ :: more) =
      (identifier name).before (readAll r more) := by
  have hfirst : (Token.isBlank ⟨Css.hash, .text name, l, none⟩ ||
    isCombinator ⟨Css.hash, .text name, l, none⟩) = false := h
  rw [readAll_cons, hfirst]
  rfl

theorem readAll_universal (more : List Token) :
    readAll r (⟨Css.delim, .char '*', l, none⟩ :: more) = universal.before (readAll r more) := by
  rw [readAll_cons]
  rfl

theorem readAll_className {l' : Location} (more : List Token) :
    readAll r (⟨Css.delim, .char '.', l, none⟩ :: ⟨Css.ident, .text name, l', none⟩ :: more) =
      (className name).before (readAll r more) := by
  rw [readAll_cons]
  rfl

theorem readAll_colon {t : Token} {s : Simple} (h : readPseudo r t = .ok s)
    (more : List Token) :
    readAll r (⟨Css.colon, .none, l, none⟩ :: t :: more) = s.before (readAll r more) := by
  rw [readAll_cons]
  show (match readPseudo r t with
    | .ok s => s.before (readAll r more)
    | .error e => .error e) = _
  rw [h]

theorem readPseudo_ident (hlower : Text.lower name = name) (h : r.hasPseudoClass name = true) :
    readPseudo r ⟨Css.ident, .text name, l, none⟩ = .ok (pseudoClass name) := by
  show (if r.hasPseudoClass (Text.lower name) then Except.ok (pseudoClass (Text.lower name))
    else .error (SelectorError.unknownPseudoClass (Text.lower name) l)) = _
  rw [hlower, if_pos h]

theorem readPseudo_call {f : FunctionSelector} (h : f.Readable r) {args : List Token}
    {l' : Location} (hargs : args.map unplacing.token = f.args.map unplacing.token) :
    readPseudo r ⟨Css.functionBlock, .call ⟨f.name, args, l⟩, l', none⟩ =
      .ok (function ⟨f.name, args, f.function⟩) := by
  have hprepared : f.function.prepare args = .ok () := by
    rw [(h.placeless args f.args hargs).1, h.prepared]
  show readCall r _ ⟨f.name, args, l⟩ = _
  simp only [readCall, h.folded, h.registered, hprepared]

/-!
## Groups
-/

theorem readAll_spelled {s : Simple} (h : s.Readable r) {ts : List Token}
    (hts : ts.map unplacing.token = s.spelled.map unplacing.token) :
    exists u, s.Alike u ∧ forall more, readAll r (ts ++ more) = u.before (readAll r more) := by
  cases s with
  | universal =>
      rcases List.map_eq_singleton_iff.mp hts with ⟨t, rfl, ht⟩
      rcases eq_of_unplacing (p := .char '*') trivial ht with ⟨l, rfl⟩
      exact ⟨universal, ⟨rfl, fun _ => rfl⟩, readAll_universal⟩
  | type name =>
      rcases List.map_eq_singleton_iff.mp hts with ⟨t, rfl, ht⟩
      rcases eq_of_unplacing (p := .text name) trivial ht with ⟨l, rfl⟩
      refine ⟨type (Text.lower name), ⟨rfl, ?_⟩, readAll_type h.2⟩
      intro e
      simp only [accepts, Text.sameFolded, Text.lower_lower]
  | identifier name =>
      rcases List.map_eq_singleton_iff.mp hts with ⟨t, rfl, ht⟩
      rcases eq_of_unplacing (p := .text name) trivial ht with ⟨l, rfl⟩
      exact ⟨identifier name, ⟨rfl, fun _ => rfl⟩, readAll_identifier h.2⟩
  | className name =>
      rcases List.map_eq_cons_iff.mp hts with ⟨t, us, rfl, ht, hus⟩
      rcases List.map_eq_singleton_iff.mp hus with ⟨u, rfl, hu⟩
      rcases eq_of_unplacing (p := .char '.') trivial ht with ⟨l, rfl⟩
      rcases eq_of_unplacing (p := .text name) trivial hu with ⟨l', rfl⟩
      exact ⟨className name, ⟨rfl, fun _ => rfl⟩, readAll_className⟩
  | pseudoClass name =>
      rcases List.map_eq_cons_iff.mp hts with ⟨t, us, rfl, ht, hus⟩
      rcases List.map_eq_singleton_iff.mp hus with ⟨u, rfl, hu⟩
      rcases eq_of_unplacing (p := .none) trivial ht with ⟨l, rfl⟩
      rcases eq_of_unplacing (p := .text name) trivial hu with ⟨l', rfl⟩
      exact ⟨pseudoClass name, ⟨rfl, fun _ => rfl⟩,
        readAll_colon (readPseudo_ident h.2.1 h.2.2)⟩
  | function f =>
      rcases List.map_eq_cons_iff.mp hts with ⟨t, us, rfl, ht, hus⟩
      rcases List.map_eq_singleton_iff.mp hus with ⟨u, rfl, hu⟩
      rcases eq_of_unplacing (p := .none) trivial ht with ⟨l, rfl⟩
      rcases eq_call_of_unplacing hu with ⟨args, l', l'', rfl, hargs⟩
      refine ⟨function ⟨f.name, args, f.function⟩, ⟨rfl, ?_⟩,
        readAll_colon (readPseudo_call h hargs)⟩
      intro e
      exact (h.placeless f.args args hargs.symm).2 e

theorem readAll_flatMap {group : List Simple} (h : forall s, s ∈ group -> s.Readable r)
    {ts : List Token}
    (hts : ts.map unplacing.token = (group.flatMap spelled).map unplacing.token) :
    exists us, List.Forall₂ Alike group us ∧ readAll r ts = .ok us := by
  induction group generalizing ts with
  | nil =>
      rcases List.map_eq_nil_iff.mp hts with rfl
      exact ⟨[], .nil, rfl⟩
  | cons s group ih =>
      rw [List.flatMap_cons, List.map_append] at hts
      rcases List.map_eq_append_iff.mp hts with ⟨front, rest, rfl, hfront, hrest⟩
      rcases readAll_spelled (h s List.mem_cons_self) hfront with ⟨u, hu, hread⟩
      rcases ih (fun v hv => h v (List.mem_cons_of_mem s hv)) hrest with ⟨us, hus, hreadus⟩
      refine ⟨u :: us, .cons hu hus, ?_⟩
      rw [hread, hreadus]
      rfl

end Simple

namespace Selector

open Simple

/-!
## Runs between commas
-/

section Groups

variable {f : Token -> Token}

theorem groups_ne_nil (ts : List Token) : groups ts ≠ [] := by
  cases ts with
  | nil => simp [groups]
  | cons t ts =>
      rw [groups]
      split
      · simp
      · split <;> simp

theorem groups_map (hf : forall t, (f t).is Css.comma = t.is Css.comma) (ts : List Token) :
    groups (ts.map f) = (groups ts).map (List.map f) := by
  induction ts with
  | nil => rfl
  | cons t ts ih =>
      rw [List.map_cons, groups, hf, ih, groups]
      split
      · rfl
      · cases groups ts <;> rfl

theorem groups_append {front : List Token} (h : forall t, t ∈ front -> t.is Css.comma = false)
    {ts group : List Token} {rest : List (List Token)} (hts : groups ts = group :: rest) :
    groups (front ++ ts) = (front ++ group) :: rest := by
  induction front with
  | nil => exact hts
  | cons t front ih =>
      have htail := ih fun u hu => h u (List.mem_cons_of_mem t hu)
      rw [List.cons_append, groups, h t List.mem_cons_self, htail]
      rfl

theorem groups_comma {t : Token} (h : t.is Css.comma = true) (ts : List Token) :
    groups (t :: ts) = [] :: groups ts := by
  rw [groups, if_pos h]

theorem trimGroup_map (hf : forall t, (f t).isSignificant = t.isSignificant) (ts : List Token) :
    trimGroup (ts.map f) = (trimGroup ts).map f := by
  have hsame : ((fun t => !t.isSignificant) ∘ f) = fun t => !t.isSignificant := by
    funext t
    exact congrArg not (hf t)
  simp only [trimGroup, List.dropWhile_map, ← List.map_reverse, hsame]

theorem dropWhile_of_significant {ts : List Token}
    (h : forall t, t ∈ ts -> t.isSignificant = true) :
    ts.dropWhile (fun t => !t.isSignificant) = ts := by
  cases ts with
  | nil => rfl
  | cons t ts => simp [h t List.mem_cons_self]

theorem trimGroup_of_significant {ts : List Token}
    (h : forall t, t ∈ ts -> t.isSignificant = true) : trimGroup ts = ts := by
  have hreverse : forall t, t ∈ ts.reverse -> t.isSignificant = true :=
    fun t ht => h t (List.mem_reverse.mp ht)
  rw [trimGroup, dropWhile_of_significant h, dropWhile_of_significant hreverse,
    List.reverse_reverse]

theorem trimGroup_cons {t : Token} (h : t.isSignificant = false) (ts : List Token) :
    trimGroup (t :: ts) = trimGroup ts := by
  rw [trimGroup, trimGroup, List.dropWhile_cons, h]
  rfl

end Groups

theorem spelled_quiet (s : Simple) :
    forall t, t ∈ s.spelled -> t.is Css.comma = false ∧ t.isSignificant = true := by
  have hkinds : forall k, k ∈ [Css.delim, Css.ident, Css.hash, Css.colon, Css.functionBlock] ->
      k.same Css.comma = false ∧ (!k.blank && !k.terminator) = true := by
    decide
  intro t ht
  apply hkinds t.kind
  cases s <;> simp only [spelled, List.mem_cons, List.not_mem_nil, or_false] at ht <;>
    rcases ht with rfl | rfl <;> simp [Token.of, Token.bare, FunctionSelector.call, Call.toToken]

theorem spelledGroup_quiet (group : List Simple) :
    forall t, t ∈ spelledGroup group -> t.is Css.comma = false ∧ t.isSignificant = true := by
  intro t ht
  rcases List.mem_flatMap.mp ht with ⟨s, _, ht⟩
  exact spelled_quiet s t ht

theorem groups_append_spelledBehind {front : List Token}
    (h : forall t, t ∈ front -> t.is Css.comma = false) (groups : List (List Simple)) :
    Selector.groups (front ++ spelledBehind groups) =
      front :: groups.map fun group => .bare Css.whitespace :: spelledGroup group := by
  induction groups generalizing front with
  | nil =>
      have hread := groups_append h (groups.eq_def [])
      show Selector.groups (front ++ []) = [front]
      rw [hread, List.append_nil]
  | cons group groups ih =>
      have hgroup : forall t, t ∈ Token.bare Css.whitespace :: spelledGroup group ->
          t.is Css.comma = false :=
        List.forall_mem_cons.mpr ⟨rfl, fun t ht => (spelledGroup_quiet group t ht).1⟩
      have hbehind := ih hgroup
      have hread := groups_append h (groups_comma (t := .bare Css.comma) rfl
        (Token.bare Css.whitespace :: spelledGroup group ++ spelledBehind groups))
      rw [hbehind, List.append_nil] at hread
      exact hread

variable {r : SelectorRegistry}

/-!
## Groups
-/

def AlikeGroups (group other : List Simple) : Prop :=
  groupWeight group = groupWeight other ∧ forall e, groupAccepts group e = groupAccepts other e

theorem alikeGroups_of_forall₂ {group other : List Simple} (h : List.Forall₂ Alike group other) :
    AlikeGroups group other := by
  induction h with
  | nil => exact ⟨rfl, fun _ => rfl⟩
  | @cons s u group other hs _ ih =>
      constructor
      · show s.specificity + groupWeight group = u.specificity + groupWeight other
        rw [hs.1, ih.1]
      · intro e
        show (s.accepts e && groupAccepts group e) = (u.accepts e && groupAccepts other e)
        rw [hs.2, ih.2]

theorem alikeGroups_written (group : List Simple) : AlikeGroups group (written group) := by
  cases group with
  | nil => exact ⟨rfl, fun _ => rfl⟩
  | cons s group =>
      have hperm : (s :: group).Perm (written (s :: group)) :=
        (List.filter_append_perm leads (s :: group)).symm
      constructor
      · exact Specificity.sum_perm (hperm.map Simple.specificity)
      · intro e
        exact hperm.all_eq

theorem readGroup_spelledGroup {group : List Simple} (h : forall s, s ∈ group -> s.Readable r)
    {ts : List Token} (hts : ts.map unplacing.token = (spelledGroup group).map unplacing.token)
    (l : Location) :
    exists other, AlikeGroups group other ∧ readGroup r l ts = .ok (ofSimples other) := by
  rcases readAll_flatMap (readable_written h) hts with ⟨other, halike, hread⟩
  have hgroups := alikeGroups_of_forall₂ halike
  have hwritten := alikeGroups_written group
  refine ⟨other, ⟨hwritten.1.trans hgroups.1, fun e => (hwritten.2 e).trans (hgroups.2 e)⟩, ?_⟩
  rw [readGroup, hread]
  cases other with
  | nil =>
      rw [List.forall₂_nil_right_iff] at halike
      exact absurd halike (written_ne_nil group)
  | cons s other => rfl

theorem readGroups_spelled {groups : List (List Simple)}
    (h : forall g, g ∈ groups -> forall s, s ∈ g -> s.Readable r) {runs : List (List Token)}
    (hruns : List.Forall₂ (fun run group =>
      (trimGroup run).map unplacing.token = (spelledGroup group).map unplacing.token) runs groups)
    (l : Location) :
    exists others, List.Forall₂ AlikeGroups groups others ∧
      readGroups r l runs = others.map fun other => .ok (ofSimples other) := by
  induction hruns generalizing l with
  | nil => exact ⟨[], .nil, rfl⟩
  | @cons run group runs groups hrun _ ih =>
      have hothers := ih fun g hg => h g (List.mem_cons_of_mem group hg)
      rw [readGroups]
      rcases readGroup_spelledGroup (h group List.mem_cons_self) hrun _ with
        ⟨other, halike, hread⟩
      rcases hothers _ with ⟨others, hall, hreads⟩
      refine ⟨other :: others, .cons halike hall, ?_⟩
      rw [hread, hreads]
      rfl

theorem forall₂_of_map_eq {α β γ : Type} {f : α -> γ} {g : β -> γ} {as : List α} {bs : List β}
    (h : as.map f = bs.map g) : List.Forall₂ (fun a b => f a = g b) as bs := by
  have hsame : List.Forall₂ Eq (as.map f) (bs.map g) := by
    rw [h]
    exact List.forall₂_refl _
  exact List.forall₂_map_left_iff.mp (List.forall₂_map_right_iff.mp hsame)

theorem groups_spelled {values : List Token} {group : List Simple} {groups : List (List Simple)}
    (h : values.map unplacing.token =
      (spelledGroup group ++ spelledBehind groups).map unplacing.token) :
    List.Forall₂ (fun run group =>
        (trimGroup run).map unplacing.token = (spelledGroup group).map unplacing.token)
      (Selector.groups values) (group :: groups) := by
  have hcomma : forall t, (unplacing.token t).is Css.comma = t.is Css.comma := fun t =>
    unplacing.token_is t Css.comma
  have hsignificant : forall t, (unplacing.token t).isSignificant = t.isSignificant := fun t => by
    rw [Token.isSignificant, unplacing.token_isBlank, unplacing.token_isTerminator]
    rfl
  have hgroups := congrArg Selector.groups h
  rw [groups_map hcomma, groups_map hcomma,
    groups_append_spelledBehind fun t ht => (spelledGroup_quiet group t ht).1] at hgroups
  have htrimmed := congrArg (List.map trimGroup) hgroups
  have hspelled : forall g, trimGroup (spelledGroup g) = spelledGroup g := fun g =>
    trimGroup_of_significant fun t ht => (spelledGroup_quiet g t ht).2
  have hblank : forall g, trimGroup (unplacing.token (.bare Css.whitespace) ::
      (spelledGroup g).map unplacing.token) = (spelledGroup g).map unplacing.token := by
    intro g
    rw [← List.map_cons, trimGroup_map hsignificant, trimGroup_cons rfl, hspelled]
  apply forall₂_of_map_eq
  simpa only [List.map_map, List.map_cons, Function.comp_def, trimGroup_map hsignificant,
    hspelled, hblank] using htrimmed

/-!
## Selectors of several groups
-/

def ofGroups (groups : List (List Simple)) : Selector :=
  Junction.disjunction.collapse (groups.map ofSimples)

theorem compounds_ofSimples (group : List Simple) : (ofSimples group).compounds = [group] := by
  rw [ofSimples, compositional_compounds.collapse]
  show compoundsOfAll _ = _
  induction group with
  | nil => rfl
  | cons s group ih =>
      rw [List.map_cons, compoundsOfAll, ih]
      rfl

theorem compounds_ofGroups (groups : List (List Simple)) :
    (ofGroups groups).compounds = groups := by
  rw [ofGroups, compositional_compounds.collapse]
  show compoundsOfAny _ = _
  induction groups with
  | nil => rfl
  | cons group groups ih =>
      rw [List.map_cons, compoundsOfAny, ih, compounds_ofSimples]
      rfl

theorem Formed.collapse {ok : Simple -> Prop} {parts : List Selector} (j : Junction)
    (hne : parts ≠ []) (h : forall s, s ∈ parts -> Formed ok s) : Formed ok (j.collapse parts) := by
  match parts, j with
  | [], _ => exact absurd rfl hne
  | [s], _ => exact h s List.mem_cons_self
  | _ :: _ :: _, .conjunction => exact .all h
  | _ :: _ :: _, .disjunction => exact .any hne h

theorem formed_ofSimples (group : List Simple) : Formed (fun _ => True) (ofSimples group) := by
  cases group with
  | nil =>
      apply Formed.all
      intro s hs
      cases hs
  | cons s group =>
      apply Formed.collapse
      · simp
      · intro u hu
        rcases List.mem_map.mp hu with ⟨v, _, rfl⟩
        exact .simple trivial

theorem specificity_ofGroups {groups : List (List Simple)} (hne : groups ≠ []) :
    (ofGroups groups).specificity = heaviestGroup groups := by
  have hformed : Formed (fun _ => True) (ofGroups groups) := by
    apply Formed.collapse
    · simpa using hne
    · intro s hs
      rcases List.mem_map.mp hs with ⟨group, _, rfl⟩
      exact formed_ofSimples group
  rw [hformed.specificity, compounds_ofGroups]

theorem accepts_ofGroups (groups : List (List Simple)) (e : Element) :
    (ofGroups groups).accepts e = groups.any fun g => groupAccepts g e := by
  rw [accepts_eq_any, compounds_ofGroups]

theorem heaviestGroup_alike {groups others : List (List Simple)}
    (h : List.Forall₂ AlikeGroups groups others) : heaviestGroup groups = heaviestGroup others := by
  induction h with
  | nil => rfl
  | @cons group other groups others hgroup _ ih =>
      show (groupWeight group).max (heaviestGroup groups) =
        (groupWeight other).max (heaviestGroup others)
      rw [hgroup.1, ih]

theorem any_alike {groups others : List (List Simple)} (h : List.Forall₂ AlikeGroups groups others)
    (e : Element) :
    (groups.any fun g => groupAccepts g e) = others.any fun g => groupAccepts g e := by
  induction h with
  | nil => rfl
  | cons hgroup _ ih => rw [List.any_cons, List.any_cons, hgroup.2, ih]

end Selector

namespace RuleSelector

open Selector

variable {r : SelectorRegistry}

theorem read_ofGroups {values : List Token} {groups : List (List Simple)} (hne : groups ≠ [])
    (h : readGroups r (Queue.location values) (Selector.groups values) =
      groups.map fun group => .ok (ofSimples group)) :
    read r values = ⟨some (ofSelector (ofGroups groups)), []⟩ := by
  have hvalues :
      (groups.map fun group => (.ok (ofSimples group) : Except SelectorError Selector)).filterMap
        Except.toOption = groups.map ofSimples := by
    rw [List.filterMap_map]
    exact congrFun (List.filterMap_eq_map (f := ofSimples)) groups
  rw [read, h, hvalues]
  cases groups with
  | nil => exact absurd rfl hne
  | cons group groups =>
      refine congrArg (Outcome.mk _) ?_
      rw [List.filterMap_map]
      exact List.filterMap_eq_nil_iff.mpr fun _ _ => rfl

theorem parse_eq_some_iff {s : String} {u : RuleSelector} :
    parse r s = ⟨some u, []⟩ ↔
      (parseRun (.ofOptions {}) Token.isEof (Css.tokenize {} s)).errors = [] ∧
        read r (parseRun (.ofOptions {}) Token.isEof (Css.tokenize {} s)).value =
          ⟨some u, []⟩ := by
  have hsplit : forall o : Outcome SelectorError (Option RuleSelector),
      o = ⟨some u, []⟩ ↔ o.value = some u ∧ o.errors = [] := fun o => by
    rw [← Outcome.mk.injEq]
  rw [hsplit, hsplit, parse, Outcome.andThen, List.append_eq_nil_iff, List.map_eq_nil_iff]
  exact and_left_comm

/-- The text of a selector is read without an error, if all its simple selectors can be
read back and no type is written behind another one.  What is read matches the same
elements and weighs as much as the heaviest group. -/
theorem parse_text (s : Selector) (h : Covered (Simple.Readable r) s.compounds)
    (hapart : forall g, g ∈ s.compounds -> Simple.TypesApart g) :
    exists u, parse r s.text = ⟨some u, []⟩ ∧ (forall e, u.accepts e = s.accepts e) ∧
      u.specificity = heaviestGroup s.compounds := by
  rcases h with ⟨hne, hreadable⟩
  have haccepts := s.accepts_eq_any
  cases hgroups : s.compounds with
  | nil => exact absurd hgroups hne
  | cons group groups =>
      rw [hgroups] at hreadable hapart haccepts
      rcases readRun_compoundText hreadable hapart with ⟨herrors, hvalues⟩
      rcases readGroups_spelled hreadable (groups_spelled hvalues) (Queue.location _) with
        ⟨others, halike, hread⟩
      have hothers : others ≠ [] := by
        rintro rfl
        cases halike
      refine ⟨ofSelector (ofGroups others), ?_, ?_, ?_⟩
      · rw [Selector.text, hgroups, parse_eq_some_iff]
        exact ⟨herrors, read_ofGroups hothers hread⟩
      · intro e
        show (ofGroups others).flatten.accepts e = _
        rw [accepts_flatten, accepts_ofGroups, haccepts, any_alike halike]
      · show (ofGroups others).flatten.specificity = _
        rw [specificity_flatten, specificity_ofGroups hothers, heaviestGroup_alike halike]

end RuleSelector
end StyleTokens
