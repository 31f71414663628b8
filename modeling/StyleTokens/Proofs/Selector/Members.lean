import StyleTokens.Proofs.Selector.Meaning

/-!
# What a junction joins

A junction joins the selectors inside it, through all junctions of its kind: its members.
Flattened, it is a list of its members, flattened, or its only member.
-/

namespace StyleTokens
namespace Selector

/-!
## Branches
-/

def branches : Selector -> List Selector
  | .simple _ => []
  | .all parts => parts
  | .any parts => parts
  | .and left right => [left, right]
  | .or left right => [left, right]

theorem branch_induction {P : Selector -> Prop} (simple : forall s, P (.simple s))
    (joined : forall s j, s.junction? = some j -> (forall u, u ∈ s.branches -> P u) -> P s)
    (s : Selector) : P s := by
  induction s using induction with
  | simple s => exact simple s
  | all parts ih => exact joined _ .conjunction rfl ih
  | any parts ih => exact joined _ .disjunction rfl ih
  | and left right ihleft ihright =>
      exact joined _ .conjunction rfl (by simp [branches, ihleft, ihright])
  | or left right ihleft ihright =>
      exact joined _ .disjunction rfl (by simp [branches, ihleft, ihright])

theorem parts_of_junction? {s : Selector} {j : Junction} (h : s.junction? = some j)
    (outer : Junction) :
    s.parts outer = j.inside outer (s.branches.flatMap fun u => u.parts j) := by
  cases s with
  | simple => cases h
  | all inner =>
      cases h
      rw [parts, partsOfAll_eq_flatMap]
      rfl
  | any inner =>
      cases h
      rw [parts, partsOfAll_eq_flatMap]
      rfl
  | and left right =>
      cases h
      simp [parts, branches]
  | or left right =>
      cases h
      simp [parts, branches]

/-!
## Members
-/

mutual

/-- The selectors that a junction of a kind joins when it comes to a selector: those
inside of it, through all junctions of that kind, or the selector itself. -/
def members (s : Selector) (j : Junction) : List Selector :=
  match s with
  | .simple s => [.simple s]
  | .all inner => if j = .conjunction then membersOfAll inner j else [.all inner]
  | .any inner => if j = .disjunction then membersOfAll inner j else [.any inner]
  | .and left right =>
      if j = .conjunction then left.members j ++ right.members j else [.and left right]
  | .or left right =>
      if j = .disjunction then left.members j ++ right.members j else [.or left right]

def membersOfAll (inner : List Selector) (j : Junction) : List Selector :=
  match inner with
  | [] => []
  | s :: inner => s.members j ++ membersOfAll inner j

end

theorem membersOfAll_eq_flatMap (inner : List Selector) (j : Junction) :
    membersOfAll inner j = inner.flatMap fun s => s.members j := by
  induction inner with
  | nil => rfl
  | cons s inner ih => rw [membersOfAll, ih, List.flatMap_cons]

theorem members_of_junction? {s : Selector} {j : Junction} (h : s.junction? = some j) :
    s.members j = s.branches.flatMap fun u => u.members j := by
  cases s with
  | simple => cases h
  | all inner =>
      cases h
      rw [members, if_pos rfl, membersOfAll_eq_flatMap]
      rfl
  | any inner =>
      cases h
      rw [members, if_pos rfl, membersOfAll_eq_flatMap]
      rfl
  | and left right =>
      cases h
      simp [members, branches]
  | or left right =>
      cases h
      simp [members, branches]

theorem members_of_not_junction? {s : Selector} {j : Junction} (h : s.junction? ≠ some j) :
    s.members j = [s] := by
  cases s with
  | simple s => rfl
  | all inner => exact if_neg fun hj => h (by rw [hj]; rfl)
  | any inner => exact if_neg fun hj => h (by rw [hj]; rfl)
  | and left right => exact if_neg fun hj => h (by rw [hj]; rfl)
  | or left right => exact if_neg fun hj => h (by rw [hj]; rfl)

/-- No member is a junction of the kind that joins it. -/
theorem junction?_of_mem_members {s m : Selector} {j : Junction} (hm : m ∈ s.members j) :
    m.junction? ≠ some j := by
  induction s using branch_induction with
  | simple s =>
      rw [members, List.mem_singleton] at hm
      rw [hm]
      exact Option.some_ne_none j ∘ Eq.symm
  | joined s k hk ih =>
      by_cases hkj : s.junction? = some j
      · rw [members_of_junction? hkj] at hm
        rcases List.mem_flatMap.mp hm with ⟨u, hu, hm⟩
        exact ih u hu hm
      · rw [members_of_not_junction? hkj, List.mem_singleton] at hm
        rwa [hm]

/-- What holds of simple selectors, and of a junction if it does of its members, holds
of every selector. -/
theorem member_induction {P : Selector -> Prop} (simple : forall s, P (.simple s))
    (joined : forall s j, s.junction? = some j -> (forall m, m ∈ s.members j -> P m) -> P s)
    (s : Selector) : P s := by
  -- The members of a junction lie deeper than its branches, so these are followed along.
  have hall : P s ∧ forall j m, m ∈ s.members j -> P m := by
    induction s using branch_induction with
    | simple s =>
        constructor
        · exact simple s
        · intro j m hm
          rw [members, List.mem_singleton] at hm
          rw [hm]
          exact simple s
    | joined s j hj ih =>
        have hmembers : forall m, m ∈ s.members j -> P m := by
          intro m hm
          rw [members_of_junction? hj] at hm
          rcases List.mem_flatMap.mp hm with ⟨u, hu, hm⟩
          exact (ih u hu).2 j m hm
        have hself : P s := joined s j hj hmembers
        constructor
        · exact hself
        · intro k m hm
          by_cases hk : s.junction? = some k
          · rw [hj] at hk
            rw [← Option.some.inj hk] at hm
            exact hmembers m hm
          · rw [members_of_not_junction? hk, List.mem_singleton] at hm
            rwa [hm]
  exact hall.1

/-!
## Flattening
-/

theorem flatten_eq_collapse_parts {s : Selector} {j : Junction} (h : s.junction? = some j) :
    s.flatten = j.collapse (s.parts j) := by
  rw [flatten, h]

theorem parts_eq_map_flatten (s : Selector) (outer : Junction) :
    s.parts outer = (s.members outer).map flatten := by
  induction s using branch_induction generalizing outer with
  | simple s => rfl
  | joined s j hj ih =>
      by_cases houter : j = outer
      · subst houter
        rw [parts_of_junction? hj, Junction.inside, if_pos rfl, members_of_junction? hj,
          List.map_flatMap]
        exact congrArg List.flatten (List.map_congr_left fun u hu => ih u hu j)
      · have hne : s.junction? ≠ some outer := by
          rw [hj]
          exact fun h => houter (Option.some.inj h)
        rw [members_of_not_junction? hne, parts_of_junction? hj, Junction.inside,
          if_neg houter, List.map_singleton, flatten_eq_collapse_parts hj,
          parts_of_junction? hj, Junction.inside, if_pos rfl]

theorem flatten_of_members {s : Selector} {j : Junction} (h : s.junction? = some j) :
    s.flatten = j.collapse ((s.members j).map flatten) := by
  rw [flatten_eq_collapse_parts h, parts_eq_map_flatten]

theorem flatten_of_lone {s m : Selector} {j : Junction} (h : s.junction? = some j)
    (hm : s.members j = [m]) : s.flatten = m.flatten := by
  rw [flatten_of_members h, hm]
  rfl

theorem Junction.collapse_of_length {parts : List Selector} (h : parts.length ≠ 1)
    (j : Junction) : j.collapse parts = j.join parts := by
  match parts with
  | [] => rfl
  | [_] => exact absurd rfl h
  | _ :: _ :: _ => rfl

theorem flatten_of_several {s : Selector} {j : Junction} (h : s.junction? = some j)
    (hlen : (s.members j).length ≠ 1) :
    s.flatten = j.join ((s.members j).map flatten) := by
  rw [flatten_of_members h, Junction.collapse_of_length (by rwa [List.length_map])]

@[simp] theorem junction?_join (j : Junction) (parts : List Selector) :
    (j.join parts).junction? = some j := by
  cases j <;> rfl

@[simp] theorem branches_join (j : Junction) (parts : List Selector) :
    (j.join parts).branches = parts := by
  cases j <;> rfl

theorem members_join_of_fits {j : Junction} {parts : List Selector}
    (h : forall s, s ∈ parts -> s.junction? ≠ some j) : (j.join parts).members j = parts := by
  rw [members_of_junction? (junction?_join j parts), branches_join]
  induction parts with
  | nil => rfl
  | cons s parts ih =>
      rw [List.flatMap_cons, members_of_not_junction? (h s List.mem_cons_self),
        ih fun u hu => h u (List.mem_cons_of_mem s hu)]
      rfl

end Selector
end StyleTokens
