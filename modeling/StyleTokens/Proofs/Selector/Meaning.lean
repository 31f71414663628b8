import StyleTokens.Selector

/-!
# What the groups of a selector mean

A selector means what its groups of simple selectors do: it matches where all members
of one group do, and it weighs as much as its heaviest group.  Flattening changes
neither, nor the groups.
-/

namespace StyleTokens

/-!
## Weights
-/

namespace Specificity

variable (a b c : Specificity)

theorem isLe_iff {a b : Specificity} :
    a.isLe b = true ↔
      a.ids < b.ids ∨ a.ids = b.ids ∧
        (a.classes < b.classes ∨ a.classes = b.classes ∧ a.types ≤ b.types) := by
  rw [isLe, Specificity.compare, Ordering.isLE_then_iff_or, Ordering.isLE_then_iff_or,
    Nat.compare_eq_lt, Nat.compare_eq_lt, Nat.compare_eq_eq, Nat.compare_eq_eq, Nat.isLE_compare]

theorem isLe_antisymm {a b : Specificity} (hab : a.isLe b = true) (hba : b.isLe a = true) :
    a = b := by
  rcases a with ⟨ids, classes, types⟩
  rcases b with ⟨ids', classes', types'⟩
  simp only [isLe_iff] at hab hba
  simp only [Specificity.mk.injEq]
  omega

theorem isLe_of_not_isLe {a b : Specificity} (h : ¬a.isLe b = true) : b.isLe a = true := by
  rw [isLe_iff] at h ⊢
  omega

theorem isLe_trans {a b c : Specificity} (hab : a.isLe b = true) (hbc : b.isLe c = true) :
    a.isLe c = true := by
  rw [isLe_iff] at hab hbc ⊢
  omega

theorem zero_isLe : zero.isLe a = true := by
  rw [isLe_iff]
  show 0 < a.ids ∨ 0 = a.ids ∧ (0 < a.classes ∨ 0 = a.classes ∧ 0 ≤ a.types)
  omega

theorem isLe_add_left : (c + a).isLe (c + b) = a.isLe b := by
  rw [Bool.eq_iff_iff, add_eq, add_eq, isLe_iff, isLe_iff]
  dsimp only
  omega

theorem add_comm : a + b = b + a := by
  show Specificity.mk _ _ _ = Specificity.mk _ _ _
  simp only [Nat.add_comm]

theorem add_assoc : a + b + c = a + (b + c) := by
  show Specificity.mk _ _ _ = Specificity.mk _ _ _
  simp only [add_eq, Nat.add_assoc]

theorem zero_add : zero + a = a := by
  show Specificity.mk _ _ _ = a
  simp [zero]

theorem add_zero : a + zero = a := rfl

theorem max_of_isLe {a b : Specificity} (h : a.isLe b = true) : a.max b = b := by
  rw [max, if_pos h]

theorem max_of_isLe_left {a b : Specificity} (h : b.isLe a = true) : a.max b = a := by
  rw [max]
  split
  · rename_i hab
    exact isLe_antisymm h hab
  · rfl

theorem zero_max : zero.max a = a := max_of_isLe a.zero_isLe

theorem max_zero : a.max zero = a := max_of_isLe_left a.zero_isLe

theorem max_assoc : (a.max b).max c = a.max (b.max c) := by
  by_cases hab : a.isLe b = true
  · rw [max_of_isLe hab]
    by_cases hbc : b.isLe c = true
    · rw [max_of_isLe hbc, max_of_isLe (isLe_trans hab hbc)]
    · rw [max_of_isLe_left (isLe_of_not_isLe hbc), max_of_isLe hab]
  · have hba := isLe_of_not_isLe hab
    rw [max_of_isLe_left hba]
    by_cases hbc : b.isLe c = true
    · rw [max_of_isLe hbc]
    · have hcb := isLe_of_not_isLe hbc
      rw [max_of_isLe_left hcb, max_of_isLe_left hba, max_of_isLe_left (isLe_trans hcb hba)]

theorem add_max : c + a.max b = (c + a).max (c + b) := by
  rw [max, max, isLe_add_left]
  split <;> rfl

theorem max_add : a.max b + c = (a + c).max (b + c) := by
  rw [add_comm, add_max, add_comm c a, add_comm c b]

theorem sum_append (ws vs : List Specificity) : sum (ws ++ vs) = sum ws + sum vs := by
  induction ws with
  | nil => exact (zero_add _).symm
  | cons w ws ih =>
      show w + sum (ws ++ vs) = w + sum ws + sum vs
      rw [ih, add_assoc]

theorem sum_perm {ws vs : List Specificity} (h : ws.Perm vs) : sum ws = sum vs := by
  induction h with
  | nil => rfl
  | cons w _ ih => exact congrArg (w + ·) ih
  | swap w v ws =>
      show v + (w + sum ws) = w + (v + sum ws)
      rw [← add_assoc, add_comm v w, add_assoc]
  | trans _ _ ih ih' => exact ih.trans ih'

def heaviest (ws : List Specificity) : Specificity := ws.foldr max zero

theorem greatest?_getD (ws : List Specificity) : (greatest? ws).getD zero = heaviest ws := by
  induction ws with
  | nil => rfl
  | cons w ws ih =>
      show _ = w.max (heaviest ws)
      rw [← ih, greatest?]
      cases greatest? ws with
      | none => exact (max_zero w).symm
      | some m => rfl

theorem heaviest_append (ws vs : List Specificity) :
    heaviest (ws ++ vs) = (heaviest ws).max (heaviest vs) := by
  induction ws with
  | nil => exact (zero_max _).symm
  | cons w ws ih =>
      show w.max (heaviest (ws ++ vs)) = (w.max (heaviest ws)).max (heaviest vs)
      rw [ih, max_assoc]

theorem heaviest_map_add {ws : List Specificity} (h : ws ≠ []) :
    heaviest (ws.map (c + ·)) = c + heaviest ws := by
  induction ws with
  | nil => exact absurd rfl h
  | cons w ws ih =>
      show (c + w).max (heaviest (ws.map (c + ·))) = c + w.max (heaviest ws)
      by_cases hws : ws = []
      · subst hws
        show (c + w).max zero = c + w.max zero
        rw [max_zero, max_zero]
      · rw [ih hws, add_max]

end Specificity

namespace Selector

/-!
## Induction
-/

@[elab_as_elim]
theorem induction {P : Selector -> Prop}
    (simple : forall s, P (.simple s))
    (all : forall parts, (forall s, s ∈ parts -> P s) -> P (.all parts))
    (any : forall parts, (forall s, s ∈ parts -> P s) -> P (.any parts))
    (and : forall left right, P left -> P right -> P (.and left right))
    (or : forall left right, P left -> P right -> P (.or left right))
    (s : Selector) : P s := by
  refine @Selector.rec P (fun parts => forall s, s ∈ parts -> P s) simple all any and or ?_ ?_ s
  · intro s hs
    cases hs
  · intro s parts hs hparts
    exact List.forall_mem_cons.mpr ⟨hs, hparts⟩

/-- All simple selectors in the tree pass a test, and no disjunction is empty. -/
inductive Formed (ok : Simple -> Prop) : Selector -> Prop where
  | simple {s : Simple} (h : ok s) : Formed ok (.simple s)
  | all {parts : List Selector} (h : forall s, s ∈ parts -> Formed ok s) :
      Formed ok (.all parts)
  | any {parts : List Selector} (hne : parts ≠ []) (h : forall s, s ∈ parts -> Formed ok s) :
      Formed ok (.any parts)
  | and {left right : Selector} (hl : Formed ok left) (hr : Formed ok right) :
      Formed ok (.and left right)
  | or {left right : Selector} (hl : Formed ok left) (hr : Formed ok right) :
      Formed ok (.or left right)

/-!
## Flattening
-/

section Flatten

variable {α : Type}

/-- A reading of selectors that is put together from those of their parts, by one
operation for conjunctions and one for disjunctions. -/
structure Compositional (F : Selector -> α) (both either : α -> α -> α) (unit none : α) : Prop where
  all : forall parts, F (.all parts) = (parts.map F).foldr both unit
  any : forall parts, F (.any parts) = (parts.map F).foldr either none
  and : forall left right, F (.and left right) = both (F left) (F right)
  or : forall left right, F (.or left right) = either (F left) (F right)
  both_assoc : forall a b c, both (both a b) c = both a (both b c)
  unit_both : forall a, both unit a = a
  both_unit : forall a, both a unit = a
  either_assoc : forall a b c, either (either a b) c = either a (either b c)
  none_either : forall a, either none a = a
  either_none : forall a, either a none = a

variable {F : Selector -> α} {both either : α -> α -> α} {unit none : α}

theorem foldr_append_of_assoc {op : α -> α -> α} {e : α}
    (assoc : forall a b c, op (op a b) c = op a (op b c)) (left : forall a, op e a = a)
    (as bs : List α) : (as ++ bs).foldr op e = op (as.foldr op e) (bs.foldr op e) := by
  induction as with
  | nil => exact (left _).symm
  | cons a as ih =>
      show op a ((as ++ bs).foldr op e) = op (op a (as.foldr op e)) (bs.foldr op e)
      rw [ih, assoc]

namespace Compositional

variable (h : Compositional F both either unit none)

include h

theorem collapse (j : Junction) (parts : List Selector) :
    F (j.collapse parts) = F (j.join parts) := by
  match parts with
  | [] => rfl
  | [s] =>
      cases j with
      | conjunction =>
          show F s = F (.all [s])
          rw [h.all]
          exact (h.both_unit _).symm
      | disjunction =>
          show F s = F (.any [s])
          rw [h.any]
          exact (h.either_none _).symm
  | _ :: _ :: _ => rfl

theorem join_singleton (j : Junction) (s : Selector) : F (j.join [s]) = F s :=
  (h.collapse j [s]).symm

theorem join_append_congr (j : Junction) {as as' bs bs' : List Selector}
    (has : F (j.join as) = F (j.join as')) (hbs : F (j.join bs) = F (j.join bs')) :
    F (j.join (as ++ bs)) = F (j.join (as' ++ bs')) := by
  cases j with
  | conjunction =>
      simp only [Junction.join, h.all] at has hbs ⊢
      simp only [List.map_append, foldr_append_of_assoc h.both_assoc h.unit_both, has, hbs]
  | disjunction =>
      simp only [Junction.join, h.any] at has hbs ⊢
      simp only [List.map_append, foldr_append_of_assoc h.either_assoc h.none_either, has, hbs]

theorem inside (own outer : Junction) (parts : List Selector) :
    F (outer.join (own.inside outer parts)) = F (own.join parts) := by
  unfold Junction.inside
  split
  · rename_i hsame
    rw [hsame]
  · rw [h.join_singleton, h.collapse]

theorem join_flatMap (j : Junction) {parts : List Selector} {f : Selector -> List Selector}
    (hf : forall s, s ∈ parts -> F (j.join (f s)) = F s) :
    F (j.join (parts.flatMap f)) = F (j.join parts) := by
  induction parts with
  | nil => rfl
  | cons s parts ih =>
      have hs : F (j.join (f s)) = F (j.join [s]) := by
        rw [hf s List.mem_cons_self, h.join_singleton]
      exact h.join_append_congr j hs (ih fun u hu => hf u (List.mem_cons_of_mem s hu))

theorem join_pair (j : Junction) {left right : Selector} {f : Selector -> List Selector}
    (hleft : F (j.join (f left)) = F left) (hright : F (j.join (f right)) = F right) :
    F (j.join (f left ++ f right)) = F (j.join [left, right]) := by
  have hlefts : F (j.join (f left)) = F (j.join [left]) := by rw [hleft, h.join_singleton]
  have hrights : F (j.join (f right)) = F (j.join [right]) := by rw [hright, h.join_singleton]
  exact h.join_append_congr j hlefts hrights

theorem and_eq_join (left right : Selector) :
    F (.and left right) = F (Junction.conjunction.join [left, right]) := by
  rw [h.and, Junction.join, h.all]
  show _ = both (F left) (both (F right) unit)
  rw [h.both_unit]

theorem or_eq_join (left right : Selector) :
    F (.or left right) = F (Junction.disjunction.join [left, right]) := by
  rw [h.or, Junction.join, h.any]
  show _ = either (F left) (either (F right) none)
  rw [h.either_none]

theorem parts (s : Selector) (outer : Junction) : F (outer.join (s.parts outer)) = F s := by
  induction s using induction generalizing outer with
  | simple s => exact h.join_singleton outer _
  | all parts ih =>
      rw [Selector.parts, h.inside, partsOfAll_eq_flatMap]
      exact h.join_flatMap .conjunction fun s hs => ih s hs .conjunction
  | any parts ih =>
      rw [Selector.parts, h.inside, partsOfAll_eq_flatMap]
      exact h.join_flatMap .disjunction fun s hs => ih s hs .disjunction
  | and left right ihleft ihright =>
      rw [Selector.parts, h.inside, h.and_eq_join]
      exact h.join_pair .conjunction (f := fun s => s.parts .conjunction) (ihleft _) (ihright _)
  | or left right ihleft ihright =>
      rw [Selector.parts, h.inside, h.or_eq_join]
      exact h.join_pair .disjunction (f := fun s => s.parts .disjunction) (ihleft _) (ihright _)

theorem flatten (s : Selector) : F s.flatten = F s := by
  unfold Selector.flatten
  split
  · rfl
  · rw [h.collapse, h.parts]

end Compositional

end Flatten

/-!
## Groups
-/

theorem conjoin_cons (group : List Simple) (groups others : List (List Simple)) :
    conjoin (group :: groups) others = others.map (group ++ ·) ++ conjoin groups others := rfl

theorem conjoin_append (groups more others : List (List Simple)) :
    conjoin (groups ++ more) others = conjoin groups others ++ conjoin more others :=
  List.flatMap_append

theorem unit_conjoin (groups : List (List Simple)) : conjoin [[]] groups = groups := by
  simp [conjoin]

theorem conjoin_unit (groups : List (List Simple)) : conjoin groups [[]] = groups := by
  simp [conjoin]

theorem conjoin_map (group : List Simple) (groups others : List (List Simple)) :
    conjoin (groups.map (group ++ ·)) others = (conjoin groups others).map (group ++ ·) := by
  simp [conjoin, List.flatMap_map, List.map_flatMap, Function.comp_def]

theorem conjoin_assoc (a b c : List (List Simple)) :
    conjoin (conjoin a b) c = conjoin a (conjoin b c) := by
  induction a with
  | nil => rfl
  | cons group a ih => rw [conjoin_cons, conjoin_cons, conjoin_append, conjoin_map, ih]

theorem conjoin_ne_nil {groups others : List (List Simple)} (h : groups ≠ []) (h' : others ≠ []) :
    conjoin groups others ≠ [] := by
  cases groups with
  | nil => exact absurd rfl h
  | cons group groups => simp [conjoin_cons, h']

theorem mem_conjoin {groups others : List (List Simple)} {group : List Simple} :
    group ∈ conjoin groups others ↔
      exists a, a ∈ groups ∧ exists b, b ∈ others ∧ a ++ b = group := by
  simp [conjoin]

theorem compositional_compounds : Compositional compounds conjoin List.append [[]] [] where
  all parts := by
    rw [compounds, compoundsOfAll_eq_foldr, List.foldr_map]
  any parts := by
    rw [compounds]
    induction parts with
    | nil => rfl
    | cons s parts ih =>
        rw [compoundsOfAny, ih]
        rfl
  and _ _ := rfl
  or _ _ := rfl
  both_assoc := conjoin_assoc
  unit_both := unit_conjoin
  both_unit := conjoin_unit
  either_assoc := List.append_assoc
  none_either := List.nil_append
  either_none := List.append_nil

theorem compounds_flatten (s : Selector) : s.flatten.compounds = s.compounds :=
  compositional_compounds.flatten s

/-- There is a group, and all members of all groups pass a test. -/
def Covered (ok : Simple -> Prop) (groups : List (List Simple)) : Prop :=
  groups ≠ [] ∧ forall group, group ∈ groups -> forall s, s ∈ group -> ok s

theorem Covered.conjoin {ok : Simple -> Prop} {groups others : List (List Simple)}
    (h : Covered ok groups) (h' : Covered ok others) : Covered ok (conjoin groups others) := by
  refine ⟨conjoin_ne_nil h.1 h'.1, ?_⟩
  intro group hgroup s hs
  rcases mem_conjoin.mp hgroup with ⟨a, ha, b, hb, rfl⟩
  rcases List.mem_append.mp hs with hs | hs
  · exact h.2 a ha s hs
  · exact h'.2 b hb s hs

theorem Formed.covered {ok : Simple -> Prop} {s : Selector} (h : Formed ok s) :
    Covered ok s.compounds := by
  induction h with
  | simple h => simp [Covered, compounds, h]
  | @all parts hparts ih =>
      rw [compounds]
      clear hparts
      induction parts with
      | nil => simp [Covered, compoundsOfAll]
      | cons s parts ihparts =>
          rw [compoundsOfAll]
          exact (ih s List.mem_cons_self).conjoin
            (ihparts fun u hu => ih u (List.mem_cons_of_mem s hu))
  | any hne _ ih =>
      rw [compounds, compoundsOfAny_eq_flatMap]
      constructor
      · intro hnil
        rcases List.exists_mem_of_ne_nil _ hne with ⟨s, hs⟩
        exact (ih s hs).1 (List.flatMap_eq_nil_iff.mp hnil s hs)
      · intro group hgroup
        rcases List.mem_flatMap.mp hgroup with ⟨s, hs, hgroup⟩
        exact (ih s hs).2 group hgroup
  | and _ _ ihl ihr => exact ihl.conjoin ihr
  | or _ _ ihl ihr =>
      constructor
      · simp [compounds, ihl.1]
      · intro group hgroup
        rcases List.mem_append.mp hgroup with hgroup | hgroup
        · exact ihl.2 group hgroup
        · exact ihr.2 group hgroup

/-!
## Matching
-/

def groupAccepts (group : List Simple) (e : Element) : Bool := group.all fun s => s.accepts e

theorem groupAccepts_append (group other : List Simple) (e : Element) :
    groupAccepts (group ++ other) e = (groupAccepts group e && groupAccepts other e) :=
  List.all_append

theorem any_map_append (group : List Simple) (others : List (List Simple)) (e : Element) :
    (others.map (group ++ ·)).any (fun g => groupAccepts g e) =
      (groupAccepts group e && others.any fun g => groupAccepts g e) := by
  induction others with
  | nil => simp
  | cons other others ih =>
      rw [List.map_cons, List.any_cons, ih, List.any_cons, groupAccepts_append,
        Bool.and_or_distrib_left]

theorem any_conjoin (groups others : List (List Simple)) (e : Element) :
    (conjoin groups others).any (fun g => groupAccepts g e) =
      (groups.any (fun g => groupAccepts g e) && others.any fun g => groupAccepts g e) := by
  induction groups with
  | nil => rfl
  | cons group groups ih =>
      rw [conjoin_cons, List.any_append, any_map_append, ih, List.any_cons,
        Bool.and_or_distrib_right]

theorem accepts_eq_any (s : Selector) (e : Element) :
    s.accepts e = s.compounds.any fun g => groupAccepts g e := by
  induction s using induction with
  | simple s => simp [accepts, compounds, groupAccepts]
  | all parts ih =>
      rw [accepts, compounds]
      induction parts with
      | nil => rfl
      | cons s parts ihparts =>
          rw [acceptsAll, compoundsOfAll, any_conjoin, ih s List.mem_cons_self,
            ihparts fun u hu => ih u (List.mem_cons_of_mem s hu)]
  | any parts ih =>
      rw [accepts, compounds]
      induction parts with
      | nil => rfl
      | cons s parts ihparts =>
          rw [acceptsAny, compoundsOfAny, List.any_append, ih s List.mem_cons_self,
            ihparts fun u hu => ih u (List.mem_cons_of_mem s hu)]
  | and left right ihleft ihright => rw [accepts, compounds, any_conjoin, ihleft, ihright]
  | or left right ihleft ihright => rw [accepts, compounds, List.any_append, ihleft, ihright]

theorem accepts_flatten (s : Selector) (e : Element) : s.flatten.accepts e = s.accepts e := by
  rw [accepts_eq_any, compounds_flatten, ← accepts_eq_any]

/-!
## Weighing
-/

def groupWeight (group : List Simple) : Specificity := .sum (group.map Simple.specificity)

theorem groupWeight_append (group other : List Simple) :
    groupWeight (group ++ other) = groupWeight group + groupWeight other := by
  rw [groupWeight, List.map_append, Specificity.sum_append]
  rfl

def heaviestGroup (groups : List (List Simple)) : Specificity :=
  .heaviest (groups.map groupWeight)

theorem heaviestGroup_append (groups more : List (List Simple)) :
    heaviestGroup (groups ++ more) = (heaviestGroup groups).max (heaviestGroup more) := by
  rw [heaviestGroup, List.map_append, Specificity.heaviest_append]
  rfl

/-- The heaviest of all joined groups joins the heaviest ones. -/
theorem heaviestGroup_conjoin {groups others : List (List Simple)} (h : groups ≠ [])
    (h' : others ≠ []) :
    heaviestGroup (conjoin groups others) = heaviestGroup groups + heaviestGroup others := by
  induction groups with
  | nil => exact absurd rfl h
  | cons group groups ih =>
      have hgroup : heaviestGroup (others.map (group ++ ·)) =
          groupWeight group + heaviestGroup others := by
        rw [heaviestGroup, List.map_map, heaviestGroup,
          ← Specificity.heaviest_map_add _ (by simpa using h'), List.map_map]
        refine congrArg Specificity.heaviest (List.map_congr_left ?_)
        intro other _
        exact groupWeight_append group other
      have hcons : heaviestGroup (group :: groups) =
          (groupWeight group).max (heaviestGroup groups) := rfl
      rw [conjoin_cons, heaviestGroup_append, hgroup, hcons]
      by_cases hgroups : groups = []
      · subst hgroups
        show Specificity.max _ .zero = Specificity.max _ .zero + _
        rw [Specificity.max_zero, Specificity.max_zero]
      · rw [ih hgroups, Specificity.max_add]

theorem compositional_specificity :
    Compositional specificity Specificity.add Specificity.max .zero .zero where
  all parts := by
    rw [specificity, specificities_eq_map]
    rfl
  any parts := by
    rw [specificity, specificities_eq_map, Specificity.greatest?_getD]
    rfl
  and _ _ := rfl
  or _ _ := rfl
  both_assoc := Specificity.add_assoc
  unit_both := Specificity.zero_add
  both_unit := Specificity.add_zero
  either_assoc := Specificity.max_assoc
  none_either := Specificity.zero_max
  either_none := Specificity.max_zero

theorem specificity_flatten (s : Selector) : s.flatten.specificity = s.specificity :=
  compositional_specificity.flatten s

theorem Formed.specificity {ok : Simple -> Prop} {s : Selector} (h : Formed ok s) :
    s.specificity = heaviestGroup s.compounds := by
  induction h with
  | @simple s h =>
      show s.specificity = Specificity.max (s.specificity + .zero) .zero
      rw [Specificity.max_zero, Specificity.add_zero]
  | @all parts hparts ih =>
      rw [compositional_specificity.all, Selector.compounds]
      induction parts with
      | nil => rfl
      | cons s parts ihparts =>
          have htail : forall u, u ∈ parts -> Formed ok u :=
            fun u hu => hparts u (List.mem_cons_of_mem s hu)
          have hothers : compoundsOfAll parts ≠ [] := (Formed.all htail).covered.1
          rw [compoundsOfAll,
            heaviestGroup_conjoin (hparts s List.mem_cons_self).covered.1 hothers,
            ← ih s List.mem_cons_self,
            ← ihparts htail fun u hu => ih u (List.mem_cons_of_mem s hu)]
          rfl
  | @any parts hne hparts ih =>
      rw [compositional_specificity.any, Selector.compounds]
      clear hne hparts
      induction parts with
      | nil => rfl
      | cons s parts ihparts =>
          rw [compoundsOfAny, heaviestGroup_append, ← ih s List.mem_cons_self,
            ← ihparts fun u hu => ih u (List.mem_cons_of_mem s hu)]
          rfl
  | and hl hr ihl ihr =>
      rw [Selector.specificity, Selector.compounds,
        heaviestGroup_conjoin hl.covered.1 hr.covered.1, ihl, ihr]
  | or _ _ ihl ihr =>
      rw [Selector.specificity, Selector.compounds, heaviestGroup_append, ihl, ihr]

end Selector

namespace RuleSelector

/-- However a selector is nested, it matches the same elements and weighs the same when
it is flattened.  A rule keeps the weight of the selector that it was given. -/
theorem ofSelector_faithful (s : Selector) :
    (forall e, s.flatten.accepts e = s.accepts e) ∧ s.flatten.specificity = s.specificity ∧
      (forall e, (ofSelector s).accepts e = s.accepts e) ∧
      (ofSelector s).specificity = s.specificity := by
  have haccepts : forall e, s.flatten.accepts e = s.accepts e := s.accepts_flatten
  have hweight : s.flatten.specificity = s.specificity := s.specificity_flatten
  exact ⟨haccepts, hweight, haccepts, hweight⟩

end RuleSelector

end StyleTokens
