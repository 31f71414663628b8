import Mathlib.Data.List.Chain
import StyleTokens.Proofs.Css.ReadBack.Closed
import StyleTokens.Proofs.Selector.Meaning
import StyleTokens.Proofs.Structure.Reread
import StyleTokens.Selector.Group

/-!
# How selectors are spelled

The text of a selector is the text of a run of component values.  The run stands apart
unless one type stands directly behind another: all other simple selectors start with
a mark that no name goes on with.
-/

namespace StyleTokens

open Rewrite (unplacing)
open Css (StandApartBefore goesOn)

/-!
## Lower case
-/

namespace Text

theorem lower_lower (s : String) : lower (lower s) = lower s := by
  rw [lower, lower, String.toList_ofList, List.map_map]
  exact congrArg String.ofList (List.map_congr_left fun c _ => toLower_toLower c)

theorem lower_eq_empty_iff (s : String) : lower s = "" ↔ s = "" := by
  simp [lower]

theorem mem_lower_iff {c : Char} (hc : c.isAlpha = false) (s : String) :
    c ∈ (lower s).toList ↔ c ∈ s.toList := by
  simp [lower, toLower_eq_iff hc]

end Text

/-!
## Functions
-/

/-- The function answers alike for arguments that differ in their places alone. -/
def SelectorFunction.IgnoresPlaces (f : SelectorFunction) : Prop :=
  forall args args', args.map unplacing.token = args'.map unplacing.token ->
    f.prepare args = f.prepare args' ∧ forall e, f.accepts args e = f.accepts args' e

namespace FunctionSelector

def call (f : FunctionSelector) : Token :=
  Call.toToken { name := f.name, values := f.args, location := .unknown }

theorem flat_call (f : FunctionSelector) :
    f.call.flat = ⟨Css.function, .text f.name, .unknown, none⟩ ::
      (Token.runFlat f.args ++ [.bare Css.closeParen]) := rfl

/-- The function is the one that the registry has under its name, and the call is read
back from its text. -/
structure Readable (r : SelectorRegistry) (f : FunctionSelector) : Prop where
  folded : Text.lower f.name = f.name
  registered : r.function? f.name = some f.function
  prepared : f.function.prepare f.args = .ok ()
  placeless : f.function.IgnoresPlaces
  source : Token.runSource f.args = Token.runSource (Token.runFlat f.args)
  legible : forall t, t ∈ f.call.flat -> Css.Legible t
  apart : Css.standApart f.call.flat = true
  settled : f.call.Settled (.ofOptions {})

end FunctionSelector

namespace Simple

/-!
## Simple selectors
-/

def spelled : Simple -> List Token
  | universal => [.of Css.delim (.char '*')]
  | type name => [.of Css.ident (.text name)]
  | className name => [.of Css.delim (.char '.'), .of Css.ident (.text name)]
  | identifier name => [.of Css.hash (.text name)]
  | pseudoClass name => [.bare Css.colon, .of Css.ident (.text name)]
  | function f => [.bare Css.colon, f.call]

def tokens : Simple -> List Token
  | universal => [.of Css.delim (.char '*')]
  | type name => [.of Css.ident (.text name)]
  | className name => [.of Css.delim (.char '.'), .of Css.ident (.text name)]
  | identifier name => [.of Css.hash (.text name)]
  | pseudoClass name => [.bare Css.colon, .of Css.ident (.text name)]
  | function f => .bare Css.colon :: f.call.flat

theorem runFlat_spelled (s : Simple) : Token.runFlat s.spelled = s.tokens := by
  cases s with
  | function f => exact congrArg (Token.bare Css.colon :: ·) (List.append_nil _)
  | _ => rfl

def IsName (name : String) : Prop := name ≠ "" ∧ '\x00' ∉ name.toList

def isCombinatorName (name : String) : Bool :=
  isCombinator (.of Css.ident (.text name))

/-- What the selector says is known to the registry and can be read back. -/
def Readable (r : SelectorRegistry) : Simple -> Prop
  | universal => True
  | type name => IsName name ∧ isCombinatorName name = false
  | className name => IsName name
  | identifier name => IsName name ∧ isCombinatorName name = false
  | pseudoClass name => IsName name ∧ Text.lower name = name ∧ r.hasPseudoClass name = true
  | function f => f.Readable r

variable {r : SelectorRegistry} {s : Simple}

theorem source_name (k : Kind) (name : String) :
    (Token.of k (.text name)).source = k.encode name := rfl

theorem toList_source_ident (name : String) :
    (Token.of Css.ident (.text name)).source.toList = Encoding.writeName name.toList := by
  rw [source_name]
  exact String.toList_ofList

theorem source_star : (Token.of Css.delim (.char '*')).source = "*" := by
  decide

theorem source_point : (Token.of Css.delim (.char '.')).source = "." := by
  decide

theorem source_colon : (Token.bare Css.colon).source = ":" := by
  decide

theorem source_close : (Token.bare Css.closeParen).source = ")" := by
  decide

theorem text_eq_runSource (h : s.Readable r) : s.text = Token.runSource s.tokens := by
  cases s with
  | universal => simp [text, tokens, source_star]
  | type name => simp [text, tokens, source_name]
  | className name => simp [text, tokens, source_name, source_point]
  | identifier name => simp [text, tokens, source_name]
  | pseudoClass name => simp [text, tokens, source_name, source_colon]
  | function f =>
      have hname : (Token.mk Css.function (.text f.name) .unknown none).source =
          Css.function.encode f.name := rfl
      simp only [text, tokens, FunctionSelector.flat_call, Token.runSource_cons,
        Token.runSource_append, Token.runSource_nil, source_colon, source_close, hname, h.source,
        String.append_empty, String.append_assoc]

theorem legible_name {k : Kind} {name : String} (hk : k ∈ Css.nameKinds) (h : IsName name) :
    Css.Legible (.of k (.text name)) := by
  have hne : name.toList ≠ [] := by simpa using h.1
  have hlegible := Css.legible_name hk hne h.2 .unknown
  rwa [String.ofList_toList] at hlegible

theorem legible_colon : Css.Legible (.bare Css.colon) :=
  Css.legible_bare (by simp [Css.bareKinds]) (Kind.ne_of_same (by decide)) .unknown

theorem legible_tokens (h : s.Readable r) : forall t, t ∈ s.tokens -> Css.Legible t := by
  cases s with
  | universal => exact List.forall_mem_singleton.mpr (Css.legible_lone (by decide) _)
  | type name => exact List.forall_mem_singleton.mpr (legible_name (by simp [Css.nameKinds]) h.1)
  | className name =>
      exact List.forall_mem_cons.mpr ⟨Css.legible_lone (by decide) _,
        List.forall_mem_singleton.mpr (legible_name (by simp [Css.nameKinds]) h)⟩
  | identifier name =>
      exact List.forall_mem_singleton.mpr (legible_name (by simp [Css.nameKinds]) h.1)
  | pseudoClass name =>
      exact List.forall_mem_cons.mpr ⟨legible_colon,
        List.forall_mem_singleton.mpr (legible_name (by simp [Css.nameKinds]) h.1)⟩
  | function f => exact List.forall_mem_cons.mpr ⟨legible_colon, h.legible⟩

theorem settled_spelled (h : s.Readable r) :
    forall t, t ∈ s.spelled -> t.Settled (.ofOptions {}) := by
  have hlegible := legible_tokens h
  cases s with
  | function f =>
      exact List.forall_mem_cons.mpr ⟨legible_colon.settled rfl _,
        List.forall_mem_singleton.mpr h.settled⟩
  | universal =>
      exact List.forall_mem_singleton.mpr
        ((hlegible _ List.mem_cons_self).settled rfl _)
  | type name =>
      exact List.forall_mem_singleton.mpr
        ((hlegible _ List.mem_cons_self).settled rfl _)
  | identifier name =>
      exact List.forall_mem_singleton.mpr
        ((hlegible _ List.mem_cons_self).settled rfl _)
  | className name =>
      exact List.forall_mem_cons.mpr ⟨(hlegible _ List.mem_cons_self).settled rfl _,
        List.forall_mem_singleton.mpr ((hlegible _ (by simp [tokens])).settled rfl _)⟩
  | pseudoClass name =>
      exact List.forall_mem_cons.mpr ⟨(hlegible _ List.mem_cons_self).settled rfl _,
        List.forall_mem_singleton.mpr ((hlegible _ (by simp [tokens])).settled rfl _)⟩

/-!
## What follows a simple selector
-/

def marks : List Char := ['*', '.', '#', ':', ',']

def AtMark (rest : List Char) : Prop :=
  forall c, rest.head? = some c -> c ∈ marks

theorem atMark_nil : AtMark [] := by
  intro c hc
  cases hc

theorem atMark_cons {c : Char} (h : c ∈ marks) (rest : List Char) : AtMark (c :: rest) := by
  intro d hd
  rcases Option.some.inj hd with rfl
  exact h

theorem ends_of_mem_marks {c : Char} (h : c ∈ marks) :
    Css.isNameChar c = false ∧ Css.isBlank c = false ∧ c ≠ '\\' ∧ c ≠ '(' ∧ c ≠ '>' := by
  simp only [marks, List.mem_cons, List.not_mem_nil, or_false] at h
  rcases h with rfl | rfl | rfl | rfl | rfl <;> decide

theorem AtMark.not_goesOn {rest : List Char} (h : AtMark rest) :
    Css.startsHashName rest = false ∧ rest.head? ≠ some '(' ∧ rest.head? ≠ some '>' := by
  cases rest with
  | nil => simp [Css.startsHashName]
  | cons c cs =>
      rcases ends_of_mem_marks (h c rfl) with ⟨hname, _, hescape, hopen, hclose⟩
      simp [Css.startsHashName, hname, Css.startsEscape_of_ne hescape, hopen, hclose]

theorem goesOn_ident {name : String} (h : IsName name) {rest : List Char} (hrest : AtMark rest) :
    goesOn (.of Css.ident (.text name)) rest = false := by
  rcases hrest.not_goesOn with ⟨hname, hopen, hclose⟩
  have hcdc : Css.startsCdc (Encoding.writeName name.toList ++ rest) = false :=
    Css.not_cdc_writeName (by simpa using h.1) hclose
  show (Css.startsHashName rest || rest.head? == some '(' ||
    Css.startsCdc (Encoding.writeName name.toList ++ rest)) = false
  simp [hname, hopen, hcdc]

theorem goesOn_point {name : String} (h : IsName name) (rest : List Char) :
    goesOn (.of Css.delim (.char '.')) (Encoding.writeName name.toList ++ rest) = false := by
  have hnumber := Css.not_startsNumber_writeName (show name.toList ≠ [] by simpa using h.1) rest
  show Css.startsDigit (Encoding.writeName name.toList ++ rest) = false
  cases htext : Encoding.writeName name.toList ++ rest with
  | nil => rfl
  | cons c cs =>
      rw [htext, Bool.eq_false_iff] at hnumber
      rw [Bool.eq_false_iff]
      intro hdigit
      exact hnumber (Css.startsNumber_of_isDigit cs hdigit)

theorem apart_tokens (h : s.Readable r) {rest : List Char}
    (hrest : s = universal ∨ AtMark rest) : StandApartBefore s.tokens rest := by
  cases s with
  | universal => exact ⟨rfl, trivial⟩
  | type name => exact ⟨goesOn_ident h.1 (hrest.resolve_left (by simp)), trivial⟩
  | className name =>
      refine ⟨?_, goesOn_ident h (hrest.resolve_left (by simp)), trivial⟩
      rw [Token.runSource_singleton, toList_source_ident]
      exact goesOn_point h rest
  | identifier name =>
      have hname := (hrest.resolve_left (by simp)).not_goesOn.1
      exact ⟨hname, trivial⟩
  | pseudoClass name => exact ⟨rfl, goesOn_ident h.1 (hrest.resolve_left (by simp)), trivial⟩
  | function f =>
      -- the tokens of the call end with a parenthesis
      have hapart := h.apart
      rw [FunctionSelector.flat_call, ← List.cons_append] at hapart
      exact ⟨rfl, StandApartBefore.of_closed hapart rest⟩

/-!
## Groups
-/

def written (group : List Simple) : List Simple :=
  match group with
  | [] => [universal]
  | group => group.filter leads ++ group.filter fun s => !s.leads

def runTokens (group : List Simple) : List Token := group.flatMap tokens

theorem runTokens_cons (s : Simple) (group : List Simple) :
    runTokens (s :: group) = s.tokens ++ runTokens group := rfl

theorem runFlat_flatMap_spelled (group : List Simple) :
    Token.runFlat (group.flatMap spelled) = runTokens group := by
  induction group with
  | nil => rfl
  | cons s group ih =>
      rw [List.flatMap_cons, runFlat_append, runFlat_spelled, ih]
      rfl

theorem join_text {group : List Simple} (h : forall s, s ∈ group -> s.Readable r) :
    String.join (group.map text) = Token.runSource (runTokens group) := by
  induction group with
  | nil => rfl
  | cons s group ih =>
      rw [List.map_cons, String.join_cons, runTokens_cons, Token.runSource_append,
        text_eq_runSource (h s List.mem_cons_self),
        ih fun u hu => h u (List.mem_cons_of_mem s hu)]

theorem readable_written {group : List Simple} (h : forall s, s ∈ group -> s.Readable r) :
    forall s, s ∈ written group -> s.Readable r := by
  cases group with
  | nil => exact List.forall_mem_singleton.mpr trivial
  | cons u group =>
      intro s hs
      rcases List.mem_append.mp hs with hs | hs
      · exact h s (List.mem_filter.mp hs).1
      · exact h s (List.mem_filter.mp hs).1

theorem compoundText_eq {group : List Simple} (h : forall s, s ∈ group -> s.Readable r) :
    compoundText group = Token.runSource (runTokens (written group)) := by
  rw [← join_text (readable_written h)]
  cases group <;> rfl

def isType : Simple -> Bool
  | type _ => true
  | _ => false

/-- No type is written directly behind another one. -/
def TypesApart (group : List Simple) : Prop :=
  (group.filter leads).IsChain fun a b => a.isType = true -> b.isType = false

/-- The simple selectors may be written in this order: in front of a type stands the
universal one. -/
def Ordered (group : List Simple) : Prop :=
  group.IsChain fun a b => b.isType = true -> a = universal

theorem eq_universal_of_leads (h : s.leads = true) (htype : s.isType = false) :
    s = universal := by
  cases s with
  | universal => rfl
  | type name => cases htype
  | _ => cases h

theorem not_isType_of_not_leads (h : s.leads = false) : s.isType = false := by
  cases s with
  | type name => cases h
  | _ => rfl

theorem ordered_written {group : List Simple} (h : TypesApart group) :
    Ordered (written group) := by
  cases group with
  | nil => exact List.isChain_singleton _
  | cons u group =>
      have hnotype : forall b, b ∈ (u :: group).filter (fun s => !s.leads) ->
          b.isType = false := by
        intro b hb
        exact not_isType_of_not_leads (by simpa using (List.mem_filter.mp hb).2)
      apply List.isChain_append.mpr
      refine ⟨?_, ?_, ?_⟩
      · apply List.IsChain.imp _ (List.IsChain.iff_mem.mp h)
        rintro a b ⟨ha, _, hab⟩ hb
        apply eq_universal_of_leads (List.mem_filter.mp ha).2
        rw [Bool.eq_false_iff]
        intro htype
        rw [hab htype] at hb
        cases hb
      · apply List.Pairwise.isChain
        apply List.pairwise_of_forall_mem_list
        intro a _ b hb htype
        rw [hnotype b hb] at htype
        cases htype
      · intro a _ b hb htype
        rw [hnotype b (List.mem_of_mem_head? hb)] at htype
        cases htype

theorem atMark_tokens (h : s.isType = false) (rest : List Char) :
    AtMark ((Token.runSource s.tokens).toList ++ rest) := by
  cases s with
  | type name => cases h
  | universal =>
      rw [tokens, Token.runSource_cons, source_star]
      exact atMark_cons (by decide) _
  | className name =>
      rw [tokens, Token.runSource_cons, source_point, String.toList_append, List.append_assoc]
      exact atMark_cons (by decide) _
  | identifier name =>
      have htext : (Token.of Css.hash (.text name)).source.toList =
          '#' :: Encoding.hashName name.toList := by
        rw [source_name]
        exact String.toList_ofList
      rw [tokens, Token.runSource_cons, String.toList_append, htext, List.append_assoc]
      exact atMark_cons (by decide) _
  | pseudoClass name =>
      rw [tokens, Token.runSource_cons, source_colon, String.toList_append, List.append_assoc]
      exact atMark_cons (by decide) _
  | function f =>
      rw [tokens, Token.runSource_cons, source_colon, String.toList_append, List.append_assoc]
      exact atMark_cons (by decide) _

theorem apart_runTokens {group : List Simple} (h : forall s, s ∈ group -> s.Readable r)
    (hordered : Ordered group) {rest : List Char} (hrest : AtMark rest) :
    StandApartBefore (runTokens group) rest := by
  induction group with
  | nil => trivial
  | cons s group ih =>
      have htail := ih (fun u hu => h u (List.mem_cons_of_mem s hu)) hordered.tail
      rw [runTokens_cons, Css.standApartBefore_append]
      refine ⟨apart_tokens (h s List.mem_cons_self) ?_, htail⟩
      cases group with
      | nil => exact Or.inr hrest
      | cons u group =>
          have hpair := (List.isChain_cons_cons.mp hordered).1
          cases htype : u.isType with
          | true => exact Or.inl (hpair htype)
          | false =>
              rw [runTokens_cons, Token.runSource_append, String.toList_append, List.append_assoc]
              exact Or.inr (atMark_tokens htype _)

theorem AtMark.not_startsBlank {rest : List Char} (h : AtMark rest) :
    Css.startsBlank rest = false := by
  cases rest with
  | nil => rfl
  | cons c cs => exact (ends_of_mem_marks (h c rfl)).2.1

theorem not_startsBlank_tokens (h : s.Readable r) (rest : List Char) :
    Css.startsBlank ((Token.runSource s.tokens).toList ++ rest) = false := by
  cases htype : s.isType with
  | false => exact (atMark_tokens htype rest).not_startsBlank
  | true =>
      cases s with
      | type name =>
          rcases Css.writeName_head (show name.toList ≠ [] by simpa using h.1.1) with
            ⟨c, cs, htext, hblank⟩
          rw [tokens, Token.runSource_singleton, toList_source_ident, htext]
          exact hblank
      | _ => cases htype

theorem written_ne_nil (group : List Simple) : written group ≠ [] := by
  cases group with
  | nil => simp [written]
  | cons s group =>
      cases h : s.leads with
      | true => simp [written, h]
      | false => simp [written, h]

end Simple

namespace Selector

open Simple

/-!
## Several groups
-/

def spelledGroup (group : List Simple) : List Token := (written group).flatMap spelled

def spelledBehind (groups : List (List Simple)) : List Token :=
  groups.flatMap fun group => .bare Css.comma :: .bare Css.whitespace :: spelledGroup group

def tokensBehind (groups : List (List Simple)) : List Token :=
  groups.flatMap fun group =>
    .bare Css.comma :: .bare Css.whitespace :: runTokens (written group)

theorem spelledBehind_cons (group : List Simple) (groups : List (List Simple)) :
    spelledBehind (group :: groups) =
      .bare Css.comma :: .bare Css.whitespace :: (spelledGroup group ++ spelledBehind groups) :=
  rfl

theorem tokensBehind_cons (group : List Simple) (groups : List (List Simple)) :
    tokensBehind (group :: groups) =
      .bare Css.comma :: .bare Css.whitespace ::
        (runTokens (written group) ++ tokensBehind groups) :=
  rfl

theorem runFlat_spelledBehind (groups : List (List Simple)) :
    Token.runFlat (spelledBehind groups) = tokensBehind groups := by
  induction groups with
  | nil => rfl
  | cons group groups ih =>
      rw [spelledBehind_cons, runFlat_cons, runFlat_cons, runFlat_append, spelledGroup,
        runFlat_flatMap_spelled, ih]
      rfl

theorem runFlat_spelled (group : List Simple) (groups : List (List Simple)) :
    Token.runFlat (spelledGroup group ++ spelledBehind groups) =
      runTokens (written group) ++ tokensBehind groups := by
  rw [runFlat_append, runFlat_spelledBehind, spelledGroup, runFlat_flatMap_spelled]

variable {r : SelectorRegistry} {group : List Simple} {groups : List (List Simple)}

theorem intercalate_cons (sep a : String) (l : List String) :
    sep.intercalate (a :: l) = a ++ String.join (l.map (sep ++ ·)) := by
  induction l generalizing a with
  | nil => simp [String.intercalate_singleton, String.join]
  | cons b l ih =>
      rw [String.intercalate_cons_cons, ih, List.map_cons, String.join_cons]
      simp only [String.append_assoc]

theorem join_compoundText (h : forall g, g ∈ groups -> forall s, s ∈ g -> s.Readable r) :
    String.join ((groups.map compoundText).map (", " ++ ·)) =
      Token.runSource (tokensBehind groups) := by
  induction groups with
  | nil => rfl
  | cons group groups ih =>
      have hseparator : (Token.bare Css.comma).source ++ (Token.bare Css.whitespace).source =
          ", " := by
        decide
      rw [List.map_cons, List.map_cons, String.join_cons,
        compoundText_eq (h group List.mem_cons_self),
        ih fun g hg => h g (List.mem_cons_of_mem group hg), tokensBehind_cons,
        Token.runSource_cons, Token.runSource_cons, Token.runSource_append, ← hseparator]
      simp only [String.append_assoc]

theorem intercalate_compoundText
    (h : forall g, g ∈ group :: groups -> forall s, s ∈ g -> s.Readable r) :
    ", ".intercalate ((group :: groups).map compoundText) =
      Token.runSource (runTokens (written group) ++ tokensBehind groups) := by
  rw [List.map_cons, intercalate_cons, Token.runSource_append,
    compoundText_eq (h group List.mem_cons_self),
    join_compoundText fun g hg => h g (List.mem_cons_of_mem group hg)]

theorem atMark_tokensBehind (groups : List (List Simple)) :
    AtMark (Token.runSource (tokensBehind groups)).toList := by
  cases groups with
  | nil => exact atMark_nil
  | cons group groups =>
      have hcomma : (Token.bare Css.comma).source.toList = [','] := by decide
      rw [tokensBehind_cons, Token.runSource_cons, String.toList_append, hcomma]
      exact atMark_cons (by decide) _

theorem legible_runTokens (h : forall s, s ∈ group -> s.Readable r) :
    forall t, t ∈ runTokens (written group) -> Css.Legible t := by
  intro t ht
  rcases List.mem_flatMap.mp ht with ⟨s, hs, ht⟩
  exact legible_tokens (readable_written h s hs) t ht

theorem legible_tokensBehind (h : forall g, g ∈ groups -> forall s, s ∈ g -> s.Readable r) :
    forall t, t ∈ tokensBehind groups -> Css.Legible t := by
  intro t ht
  rcases List.mem_flatMap.mp ht with ⟨g, hg, ht⟩
  rcases List.mem_cons.mp ht with rfl | ht
  · exact Css.legible_bare (by simp [Css.bareKinds]) (Kind.ne_of_same (by decide)) _
  · rcases List.mem_cons.mp ht with rfl | ht
    · exact Css.legible_bare (by simp [Css.bareKinds]) (Kind.ne_of_same (by decide)) _
    · exact legible_runTokens (h g hg) t ht

theorem settled_spelledGroup (h : forall s, s ∈ group -> s.Readable r) :
    forall t, t ∈ spelledGroup group -> t.Settled (.ofOptions {}) := by
  intro t ht
  rcases List.mem_flatMap.mp ht with ⟨s, hs, ht⟩
  exact settled_spelled (readable_written h s hs) t ht

theorem settled_spelledBehind (h : forall g, g ∈ groups -> forall s, s ∈ g -> s.Readable r) :
    forall t, t ∈ spelledBehind groups -> t.Settled (.ofOptions {}) := by
  intro t ht
  rcases List.mem_flatMap.mp ht with ⟨g, hg, ht⟩
  rcases List.mem_cons.mp ht with rfl | ht
  · have hcomma := Css.legible_bare (k := Css.comma) (by simp [Css.bareKinds])
    exact (hcomma (Kind.ne_of_same (by decide)) _).settled rfl _
  · rcases List.mem_cons.mp ht with rfl | ht
    · have hblank := Css.legible_bare (k := Css.whitespace) (by simp [Css.bareKinds])
      exact (hblank (Kind.ne_of_same (by decide)) _).settled rfl _
    · exact settled_spelledGroup (h g hg) t ht

theorem standApart_tokensBehind (h : forall g, g ∈ groups -> forall s, s ∈ g -> s.Readable r)
    (hapart : forall g, g ∈ groups -> TypesApart g) :
    StandApartBefore (tokensBehind groups) [] := by
  induction groups with
  | nil => trivial
  | cons group groups ih =>
      have hbehind := ih (fun g hg => h g (List.mem_cons_of_mem group hg))
        fun g hg => hapart g (List.mem_cons_of_mem group hg)
      have hreadable := readable_written (h group List.mem_cons_self)
      have hgroup := apart_runTokens hreadable (ordered_written (hapart group List.mem_cons_self))
        (atMark_tokensBehind groups)
      rw [tokensBehind_cons]
      refine ⟨rfl, ?_, ?_⟩
      · -- the first simple selector of the group stands behind the blank
        rw [List.append_nil, Token.runSource_append, String.toList_append]
        show Css.startsBlank _ = false
        cases hwritten : written group with
        | nil => exact absurd hwritten (written_ne_nil group)
        | cons s others =>
            rw [runTokens_cons, Token.runSource_append, String.toList_append, List.append_assoc]
            apply not_startsBlank_tokens (hreadable s _)
            rw [hwritten]
            exact List.mem_cons_self
      · rw [Css.standApartBefore_append, List.append_nil]
        exact ⟨hgroup, hbehind⟩

/-- The tokens of the groups stand apart, if no type stands directly behind another. -/
theorem standApart_tokens (h : forall g, g ∈ group :: groups -> forall s, s ∈ g -> s.Readable r)
    (hapart : forall g, g ∈ group :: groups -> TypesApart g) :
    Css.standApart (runTokens (written group) ++ tokensBehind groups) = true := by
  rw [← Css.standApartBefore_nil_iff, Css.standApartBefore_append, List.append_nil]
  constructor
  · exact apart_runTokens (readable_written (h group List.mem_cons_self))
      (ordered_written (hapart group List.mem_cons_self)) (atMark_tokensBehind groups)
  · exact standApart_tokensBehind (fun g hg => h g (List.mem_cons_of_mem group hg))
      fun g hg => hapart g (List.mem_cons_of_mem group hg)

theorem readRun_compoundText
    (h : forall g, g ∈ group :: groups -> forall s, s ∈ g -> s.Readable r)
    (hapart : forall g, g ∈ group :: groups -> TypesApart g) :
    (readRun (.ofOptions {}) Token.isEof
        (Css.tokenize {} (", ".intercalate ((group :: groups).map compoundText)))).errors = [] ∧
      (readRun (.ofOptions {}) Token.isEof
        (Css.tokenize {} (", ".intercalate ((group :: groups).map compoundText)))).values.map
          unplacing.token =
        (spelledGroup group ++ spelledBehind groups).map unplacing.token := by
  have hothers := fun g hg => h g (List.mem_cons_of_mem group hg)
  rw [intercalate_compoundText h, ← runFlat_spelled]
  apply readRun_runSource
  · rw [runFlat_spelled]
    intro t ht
    rcases List.mem_append.mp ht with ht | ht
    · exact legible_runTokens (h group List.mem_cons_self) t ht
    · exact legible_tokensBehind hothers t ht
  · rw [runFlat_spelled]
    exact standApart_tokens h hapart
  · intro t ht
    rcases List.mem_append.mp ht with ht | ht
    · exact settled_spelledGroup (h group List.mem_cons_self) t ht
    · exact settled_spelledBehind hothers t ht

end Selector
end StyleTokens
