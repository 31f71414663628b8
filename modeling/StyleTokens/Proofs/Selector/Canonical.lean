import StyleTokens.Proofs.Selector.ReadBack

/-!
# Selectors built from parts

However the parts of a selector were joined, its text is read back as a selector that
matches the same elements and weighs the same, as long as its names are plain and no
group holds two types.
-/

namespace StyleTokens
namespace Simple

def IsPlainName (name : String) : Prop :=
  name ≠ "" ∧ name.toList.all Css.isNameChar = true

instance (name : String) : Decidable (IsPlainName name) :=
  inferInstanceAs (Decidable (_ ∧ _))

/-- A simple selector with a plain name; a pseudo-class is in lower case and known to
the registry. -/
def Named (r : SelectorRegistry) : Simple -> Prop
  | universal => True
  | type name => IsPlainName name
  | className name => IsPlainName name
  | identifier name => IsPlainName name
  | pseudoClass name => IsPlainName name ∧ Text.lower name = name ∧ r.hasPseudoClass name = true
  | function _ => False

theorem IsPlainName.isName {name : String} (h : IsPlainName name) : IsName name := by
  refine ⟨h.1, ?_⟩
  intro hzero
  exact absurd (List.all_eq_true.mp h.2 _ hzero) (by decide)

theorem IsPlainName.not_combinator {name : String} (h : IsPlainName name) :
    isCombinatorName name = false := by
  rw [Bool.eq_false_iff]
  intro hcombinator
  unfold isCombinatorName isCombinator at hcombinator
  split at hcombinator
  · rename_i c hc
    have hmem : c ∈ name.toList := by
      simp only [Token.asChar?, Token.of] at hc
      split at hc
      · rename_i d hname
        rw [hname, Option.some.inj hc]
        exact List.mem_cons_self
      · cases hc
    have hmark : c = '>' ∨ c = '+' ∨ c = '~' := by simpa [or_assoc] using hcombinator
    have hname := List.all_eq_true.mp h.2 c hmem
    rcases hmark with rfl | rfl | rfl <;> exact absurd hname (by decide)
  · cases hcombinator

theorem Named.readable {r : SelectorRegistry} {s : Simple} (h : s.Named r) : s.Readable r := by
  cases s with
  | universal => trivial
  | type name => exact ⟨IsPlainName.isName h, IsPlainName.not_combinator h⟩
  | className name => exact IsPlainName.isName h
  | identifier name => exact ⟨IsPlainName.isName h, IsPlainName.not_combinator h⟩
  | pseudoClass name => exact ⟨h.1.isName, h.2⟩
  | function f => cases h

theorem typesApart_of_length {group : List Simple} (h : (group.filter isType).length ≤ 1) :
    TypesApart group := by
  have hleads : (group.filter leads).filter isType = group.filter isType := by
    rw [List.filter_filter]
    refine List.filter_congr ?_
    intro s _
    cases s <;> rfl
  rw [TypesApart]
  rw [← hleads] at h
  generalize group.filter leads = line at h
  induction line with
  | nil => exact List.isChain_nil
  | cons a line ih =>
      have htail : (line.filter isType).length ≤ 1 := by
        rw [List.filter_cons] at h
        split at h
        · exact Nat.le_of_succ_le h
        · exact h
      cases line with
      | nil => exact List.isChain_singleton a
      | cons b line =>
          refine List.isChain_cons_cons.mpr ⟨?_, ih htail⟩
          intro ha
          rw [Bool.eq_false_iff]
          intro hb
          simp [ha, hb] at h

end Simple

namespace RuleSelector

open Selector

variable {r : SelectorRegistry}

/-- The text of a selector of plain parts is read without an error, as a selector that
matches the same elements and weighs the same. -/
theorem parse_text_ofSelector {s : Selector} (h : s.Formed (Simple.Named r))
    (htypes : forall g, g ∈ s.compounds -> (g.filter Simple.isType).length ≤ 1) :
    exists u, parse r (ofSelector s).text = ⟨some u, []⟩ ∧
      (forall e, u.accepts e = s.accepts e) ∧ u.specificity = s.specificity := by
  have hcovered : Covered (Simple.Readable r) s.flatten.compounds := by
    rw [compounds_flatten]
    rcases h.covered with ⟨hne, hnamed⟩
    exact ⟨hne, fun g hg u hu => (hnamed g hg u hu).readable⟩
  have hapart : forall g, g ∈ s.flatten.compounds -> Simple.TypesApart g := by
    rw [compounds_flatten]
    intro g hg
    exact Simple.typesApart_of_length (htypes g hg)
  rcases parse_text s.flatten hcovered hapart with ⟨u, hparse, haccepts, hweight⟩
  refine ⟨u, hparse, ?_, ?_⟩
  · intro e
    rw [haccepts, accepts_flatten]
  · rw [hweight, compounds_flatten, h.specificity]

/-- Disjunctions inside conjunctions, a type behind other parts, and names that start
with a digit or a hyphen. -/
def nested : Selector :=
  .and
    (.or (.simple (.className "1st")) (.all [.simple (.identifier "2"), .simple .universal]))
    (.any [.and (.simple (.pseudoClass "hover")) (.simple (.type "-")), .all []])

theorem parse_text_nested :
    nested.Formed (Simple.Named .standard) ∧
      (forall g, g ∈ nested.compounds -> (g.filter Simple.isType).length ≤ 1) ∧
      exists u, parse .standard (ofSelector nested).text = ⟨some u, []⟩ ∧
        (forall e, u.accepts e = nested.accepts e) ∧ u.specificity = nested.specificity := by
  have hformed : nested.Formed (Simple.Named .standard) := by
    refine .and (.or (.simple ?_) (.all ?_)) (.any (by simp) ?_)
    · exact ⟨by decide, by decide⟩
    · refine List.forall_mem_cons.mpr ⟨.simple ?_, List.forall_mem_singleton.mpr (.simple ?_)⟩
      · exact ⟨by decide, by decide⟩
      · trivial
    · refine List.forall_mem_cons.mpr ⟨.and (.simple ?_) (.simple ?_), ?_⟩
      · exact ⟨⟨by decide, by decide⟩, by decide, by decide⟩
      · exact ⟨by decide, by decide⟩
      · exact List.forall_mem_singleton.mpr (.all fun s hs => by cases hs)
  have htypes : forall g, g ∈ nested.compounds -> (g.filter Simple.isType).length ≤ 1 := by
    decide
  exact ⟨hformed, htypes, parse_text_ofSelector hformed htypes⟩

end RuleSelector
end StyleTokens
