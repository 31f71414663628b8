import StyleTokens.Proofs.Structure.Clean
import StyleTokens.Structure.Stylesheet

/-!
# Clean style sheets

Every token that is cut from a text is regular, so every declaration that a style block of
the text keeps is clean: those of the text itself, and those in the block of any rule of a
style sheet, however deep the rule stands in the blocks of others.
-/

namespace StyleTokens

/-!
## Cut tokens
-/

namespace Css

theorem Lexeme.regular {t : Token} (h : Lexeme t) : t.Regular := by
  have hquiet : forall k, k ∈ bareKinds ++ numericKinds ++ [string, url, delim] ->
      k.faulty = false ∧ k.same ident = false := by
    decide
  have hnames : forall k, k ∈ nameKinds -> k.faulty = false := by
    decide
  have hbroken : forall k, k ∈ [badString, badUrl, delim, Css.badNumber] ->
      k.same ident = false := by
    decide
  cases h with
  | bare hk => exact .of_kind (hquiet _ (by simp [hk]))
  | name hk hcs =>
      refine .of_not_faulty (hnames _ hk) fun _ hempty => ?_
      exact hcs (String.ofList_eq_empty_iff.mp hempty)
  | enclosed hk => exact .of_kind (hquiet _ (by rcases hk with rfl | rfl <;> simp))
  | lone => exact .of_kind (hquiet delim (by simp))
  | numeric h => exact .of_kind (hquiet _ (by simp [h.kind_mem]))
  | broken hk => exact .of_error rfl (hbroken _ (by rcases hk with rfl | rfl <;> simp))
  | stray => exact .of_error rfl (hbroken delim (by simp))
  | badNumber => exact .of_error rfl (hbroken Css.badNumber (by simp))

theorem Emitted.regular {t : Token} (h : Emitted t) : t.Regular := by
  rcases h.cases with hlexeme | hremark
  · exact hlexeme.regular
  · have hcomment : comment.faulty = false ∧ comment.same ident = false := by decide
    cases hremark
    exact .of_kind hcomment

theorem regular_tokenize (o : Options) (s : String) :
    AllWithin Token.Regular (tokenize o s) := by
  intro t ht
  cases ht with
  | here hmem => exact Emitted.regular ⟨o, s, hmem⟩
  | inside hmem hinside =>
      rw [(Emitted.isPlain ⟨o, s, hmem⟩).values] at hinside
      exact absurd hinside not_within_nil

end Css

/-!
## Levels
-/

namespace Rule

def block? : Rule -> Option Block
  | qualified r => some r.block
  | named r => r.block
  | unknown _ => none

theorem toToken_mem_values {r : Rule} {b : Block} (h : r.block? = some b) :
    b.toToken ∈ r.values := by
  cases r with
  | qualified r =>
      rcases Option.some.inj h with rfl
      exact List.mem_append_right r.prelude List.mem_cons_self
  | named r =>
      have hblock : r.block = some b := h
      apply List.mem_append_right r.prelude
      rw [hblock]
      exact List.mem_cons_self
  | unknown l => cases h

/-- The block of a rule is read as this style block, with any options where they can be
chosen. -/
inductive HasStyleBlock : Rule -> StyleBlock -> Prop where
  | qualified (r : QualifiedRule) (o : Options) :
      HasStyleBlock (.qualified r) (r.styleBlock o).value
  | named {r : AtRule} {found : Outcome StructureError StyleBlock}
      (h : r.styleBlock? = some found) : HasStyleBlock (.named r) found.value

theorem HasStyleBlock.regular {r : Rule} {b : StyleBlock} (hb : r.HasStyleBlock b)
    (h : AllWithin Token.Regular r.values) : b.Regular := by
  cases hb with
  | qualified r o =>
      have hmem : r.block.toToken ∈ (Rule.qualified r).values := toToken_mem_values rfl
      exact StyleBlock.regular_read (.ofOptions o) r.block.values (h.inside hmem)
  | @named r found hfound =>
      obtain ⟨block, hblock, rfl⟩ := Option.map_eq_some_iff.mp hfound
      have hmem : block.toToken ∈ (Rule.named r).values := toToken_mem_values hblock
      exact StyleBlock.regular_read (.ofOptions {}) block.values (h.inside hmem)

end Rule

/-- The rules of a sheet, the rules in the blocks of its rules, and so on.  A block holds
rules as a style block does or as a list of rules. -/
inductive Stylesheet.AtAnyLevel (s : Stylesheet) : Rule -> Prop where
  | top {r : Rule} (h : r ∈ s.rules) : AtAnyLevel s r
  | nested {outer r : Rule} {b : StyleBlock} (houter : AtAnyLevel s outer)
      (hb : outer.HasStyleBlock b) (h : r ∈ b.rules) : AtAnyLevel s r
  | listed {outer r : Rule} {b : Block} (o : Options) (houter : AtAnyLevel s outer)
      (hb : outer.block? = some b) (h : r ∈ (Rule.readAll (.ofOptions o) b.values).value) :
      AtAnyLevel s r

theorem Stylesheet.AtAnyLevel.regular {o : Options} {s : String} {r : Rule}
    (h : (Stylesheet.parse o s).value.AtAnyLevel r) : AllWithin Token.Regular r.values := by
  induction h with
  | top hr => exact Rule.allWithin_readAll regular_construct _ (Css.regular_tokenize o s) hr
  | nested _ hb hr ih => exact (hb.regular ih).rules _ hr
  | listed _ _ hb hr ih =>
      exact Rule.allWithin_readAll regular_construct _ (ih.inside (Rule.toToken_mem_values hb)) hr

/-- Every declaration of a style block is clean, be it the block of a whole text or that of
a rule at any level of a style sheet. -/
theorem declarations_clean (s : String) :
    (forall d, d ∈ (StyleBlock.parse s).value.declarations -> d.Clean) ∧
      forall o r b, (Stylesheet.parse o s).value.AtAnyLevel r -> r.HasStyleBlock b ->
        forall d, d ∈ b.declarations -> d.Clean := by
  constructor
  · exact (StyleBlock.regular_read (.ofOptions {}) _ (Css.regular_tokenize {} s)).declarations
  · intro o r b hr hb
    exact (hb.regular hr.regular).declarations

end StyleTokens
