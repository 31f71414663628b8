import StyleTokens.Proofs.Selector.Meaning

/-!
# Distribution into groups

The groups of a selector are its disjunctive normal form.  One of them has only members
that match exactly where the selector matches, and the heaviest of them weighs as much
as the selector, unless a disjunction in it is empty: it has no group, but its weight
still counts.
-/

namespace StyleTokens
namespace Specificity

/-!
## The greatest of several weights
-/

theorem max_cases (a b : Specificity) : a.max b = a ∨ a.max b = b := by
  rw [max]
  split
  · exact Or.inr rfl
  · exact Or.inl rfl

theorem isLe_refl (a : Specificity) : a.isLe a = true := by
  rw [isLe_iff]
  omega

theorem isLe_max_left (a b : Specificity) : a.isLe (a.max b) = true := by
  by_cases h : a.isLe b = true
  · rwa [max_of_isLe h]
  · rw [max_of_isLe_left (isLe_of_not_isLe h)]
    exact a.isLe_refl

theorem isLe_max_right (a b : Specificity) : b.isLe (a.max b) = true := by
  by_cases h : a.isLe b = true
  · rw [max_of_isLe h]
    exact b.isLe_refl
  · rw [max_of_isLe_left (isLe_of_not_isLe h)]
    exact isLe_of_not_isLe h

theorem heaviest_mem {ws : List Specificity} (h : ws ≠ []) : heaviest ws ∈ ws := by
  induction ws with
  | nil => exact absurd rfl h
  | cons w ws ih =>
      show w.max (heaviest ws) ∈ w :: ws
      by_cases hws : ws = []
      · subst hws
        show w.max zero ∈ [w]
        rw [max_zero]
        exact List.mem_singleton_self w
      · rcases w.max_cases (heaviest ws) with hmax | hmax
        · rw [hmax]
          exact List.mem_cons_self
        · rw [hmax]
          exact List.mem_cons_of_mem w (ih hws)

theorem isLe_heaviest {ws : List Specificity} {w : Specificity} (h : w ∈ ws) :
    w.isLe (heaviest ws) = true := by
  induction ws with
  | nil => cases h
  | cons v ws ih =>
      show w.isLe (v.max (heaviest ws)) = true
      rcases List.mem_cons.mp h with rfl | h
      · exact w.isLe_max_left _
      · exact isLe_trans (ih h) (isLe_max_right v _)

end Specificity

namespace Selector

/-!
## The normal form
-/

theorem heaviestGroup_mem {groups : List (List Simple)} (h : groups ≠ []) :
    exists g, g ∈ groups ∧ groupWeight g = heaviestGroup groups := by
  have hweights : groups.map groupWeight ≠ [] := by simpa using h
  exact List.mem_map.mp (Specificity.heaviest_mem hweights)

theorem groupWeight_isLe {groups : List (List Simple)} {g : List Simple} (h : g ∈ groups) :
    (groupWeight g).isLe (heaviestGroup groups) = true :=
  Specificity.isLe_heaviest (List.mem_map_of_mem h)

theorem accepts_iff (s : Selector) (e : Element) :
    s.accepts e = true ↔
      exists g, g ∈ s.compounds ∧ forall m, m ∈ g -> m.accepts e = true := by
  rw [accepts_eq_any, List.any_eq_true]
  apply exists_congr
  intro g
  rw [groupAccepts, List.all_eq_true]

/-- No disjunction in the tree is empty. -/
def NoneEmpty (s : Selector) : Prop := Formed (fun _ => True) s

/-- A selector matches where all members of one of its groups do.  If no disjunction in
it is empty, its weight is that of one group, and no group weighs more. -/
theorem compounds_faithful (s : Selector) :
    (forall e, s.accepts e = true ↔
      exists g, g ∈ s.compounds ∧ forall m, m ∈ g -> m.accepts e = true) ∧
    (s.NoneEmpty ->
      (exists g, g ∈ s.compounds ∧ groupWeight g = s.specificity) ∧
        forall g, g ∈ s.compounds -> (groupWeight g).isLe s.specificity = true) := by
  constructor
  · exact s.accepts_iff
  · intro h
    rw [h.specificity]
    constructor
    · exact heaviestGroup_mem h.covered.1
    · intro g hg
      exact groupWeight_isLe hg

def twoChoices : Selector :=
  .all [.any [.simple (.type "a"), .and (.simple (.className "b")) (.simple (.className "c"))],
    .or (.simple (.function ⟨"f", [], .always⟩)) (.all [.simple (.identifier "d"), .all []])]

theorem noneEmpty_twoChoices : twoChoices.NoneEmpty := by
  have hsimple : forall s, Formed (fun _ => True) (.simple s) := fun s => .simple trivial
  have hempty : Formed (fun _ => True) (.all []) := .all (List.forall_mem_nil _)
  refine .all (List.forall_mem_cons.mpr ⟨?_, List.forall_mem_singleton.mpr ?_⟩)
  · refine .any (List.cons_ne_nil _ _) (List.forall_mem_cons.mpr ⟨hsimple _, ?_⟩)
    exact List.forall_mem_singleton.mpr (.and (hsimple _) (hsimple _))
  · refine .or (hsimple _) (.all (List.forall_mem_cons.mpr ⟨hsimple _, ?_⟩))
    exact List.forall_mem_singleton.mpr hempty

/-- The heaviest of the four groups joins the heavier members of both choices. -/
theorem compounds_faithful_twoChoices :
    twoChoices.NoneEmpty ∧ twoChoices.compounds.length = 4 ∧
      twoChoices.specificity = ⟨1, 2, 0⟩ ∧
      (exists g, g ∈ twoChoices.compounds ∧ groupWeight g = twoChoices.specificity) ∧
      forall g, g ∈ twoChoices.compounds ->
        (groupWeight g).isLe twoChoices.specificity = true :=
  ⟨noneEmpty_twoChoices, by rfl, by decide, (compounds_faithful twoChoices).2 noneEmpty_twoChoices⟩

end Selector
end StyleTokens
