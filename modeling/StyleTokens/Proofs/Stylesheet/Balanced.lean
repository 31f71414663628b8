import StyleTokens.Proofs.Structure.Balanced
import StyleTokens.Proofs.Structure.Resolved
import StyleTokens.Structure.Stylesheet

/-!
# Balanced style sheets

Whatever the text and the options, the rules of a style sheet hold balanced values
only.  What stands in the block of a rule is therefore read without entering
anything, and no limit on nesting shows in it.
-/

namespace StyleTokens
namespace Stylesheet

theorem mem_of_mem_qualifiedRules {s : Stylesheet} {r : QualifiedRule}
    (h : r ∈ s.qualifiedRules) : Rule.qualified r ∈ s.rules := by
  rcases List.mem_filterMap.mp h with ⟨rule, hrule, has⟩
  cases rule with
  | qualified q =>
      rcases Option.some.inj has with rfl
      exact hrule
  | named q => cases has
  | unknown l => cases has

theorem mem_of_mem_namedRules {s : Stylesheet} {r : AtRule} (h : r ∈ s.namedRules) :
    Rule.named r ∈ s.rules := by
  rcases List.mem_filterMap.mp h with ⟨rule, hrule, has⟩
  cases rule with
  | qualified q => cases has
  | named q =>
      rcases Option.some.inj has with rfl
      exact hrule
  | unknown l => cases has

theorem allBalanced_parse (o : Options) (s : String) {r : Rule}
    (hr : r ∈ (parse o s).value.rules) : AllBalanced r.values := by
  apply Rule.allBalanced_readAll (.ofOptions o) (Css.tokenize o s) _ hr
  intro t ht
  exact Css.Emitted.isPlain ⟨o, s, ht⟩

theorem styleBlock_of_allBalanced {b : Block} (h : AllBalanced [b.toToken]) (o o' : Options) :
    StyleBlock.read (.ofOptions o) b.values = StyleBlock.read (.ofOptions o') b.values := by
  have hvalues : AllBalanced b.values := by
    intro t ht
    exact h t (.inside List.mem_cons_self ht)
  exact StyleBlock.read_congr _ _ hvalues.opens?_eq_none

theorem styleBlock_of_mem_qualifiedRules {o : Options} {s : String} {r : QualifiedRule}
    (hr : r ∈ (parse o s).value.qualifiedRules) (o1 o2 : Options) :
    r.styleBlock o1 = r.styleBlock o2 := by
  have hvalues := allBalanced_parse o s (mem_of_mem_qualifiedRules hr)
  have hblock : AllBalanced [r.block.toToken] := by
    apply hvalues.subset
    intro t ht
    exact List.mem_append_right r.prelude ht
  simp only [QualifiedRule.styleBlock, styleBlock_of_allBalanced hblock o1 o2]

theorem styleBlock?_of_mem_namedRules {o : Options} {s : String} {r : AtRule}
    (hr : r ∈ (parse o s).value.namedRules) (o' : Options) :
    r.styleBlock? =
      r.block.map fun b => (StyleBlock.read (.ofOptions o') b.values).outcome := by
  have hvalues := allBalanced_parse o s (mem_of_mem_namedRules hr)
  have hblock : AllBalanced (r.block.toList.map Block.toToken) := by
    apply hvalues.subset
    intro t ht
    exact List.mem_append_right r.prelude ht
  cases hb : r.block with
  | none => simp only [AtRule.styleBlock?, hb, Option.map_none]
  | some b =>
      rw [hb] at hblock
      simp only [AtRule.styleBlock?, hb, Option.map_some, styleBlock_of_allBalanced hblock {} o']

/-- Every value of every rule is balanced, at every depth.  The block of a rule is
read as a style block with any options as with any others, and with those that a named
rule takes for its block as well. -/
theorem parse_balanced (o : Options) (s : String) :
    (forall r, r ∈ (parse o s).value.rules -> forall t, Within t r.values -> t.Balanced) ∧
      (forall r, r ∈ (parse o s).value.qualifiedRules ->
        forall o1 o2, r.styleBlock o1 = r.styleBlock o2) ∧
      (forall r, r ∈ (parse o s).value.namedRules -> forall o',
        r.styleBlock? =
          r.block.map fun b => (StyleBlock.read (.ofOptions o') b.values).outcome) := by
  constructor
  · intro r hr
    exact allBalanced_parse o s hr
  · constructor
    · intro r hr
      exact styleBlock_of_mem_qualifiedRules hr
    · intro r hr
      exact styleBlock?_of_mem_namedRules hr

end Stylesheet
end StyleTokens
