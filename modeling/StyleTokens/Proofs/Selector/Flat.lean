import StyleTokens.Proofs.Selector.Members

/-!
# Flat selectors

A flattened selector is made of lists, and none of its lists holds a single part.
Lists of one kind can still stand inside each other: a list of one part is replaced by
that part, which may be a list of the kind around it.  This is the only way it happens.
-/

namespace StyleTokens
namespace Selector

/-!
## Flat selectors
-/

/-- Made of lists only, none of them of a single part, whose parts fit the way they are
joined. -/
inductive Normal (fits : Junction -> Selector -> Prop) : Selector -> Prop where
  | simple (s : Simple) : Normal fits (.simple s)
  | joined (j : Junction) {parts : List Selector} (hlen : parts.length ≠ 1)
      (hparts : forall s, s ∈ parts -> Normal fits s)
      (hfits : forall s, s ∈ parts -> fits j s) : Normal fits (j.join parts)

/-- Made of lists, none of them of a single part. -/
def Listed (s : Selector) : Prop := Normal (fun _ _ => True) s

/-- Made of lists, none of them of a single part or directly inside one of its kind. -/
def Flat (s : Selector) : Prop := Normal (fun j part => part.junction? ≠ some j) s

theorem normal_join_iff {fits : Junction -> Selector -> Prop} {j : Junction}
    {parts : List Selector} :
    Normal fits (j.join parts) ↔
      parts.length ≠ 1 ∧ forall s, s ∈ parts -> Normal fits s ∧ fits j s := by
  constructor
  · intro h
    generalize hs : j.join parts = s at h
    cases h with
    | simple s => cases j <;> cases hs
    | @joined k inner hlen hparts hfits =>
        have hj : j = k := by
          have := congrArg junction? hs
          simpa using this
        have hinner : parts = inner := by
          have := congrArg branches hs
          simpa using this
        subst hj hinner
        exact ⟨hlen, fun s hs => ⟨hparts s hs, hfits s hs⟩⟩
  · intro h
    exact .joined j h.1 (fun s hs => (h.2 s hs).1) fun s hs => (h.2 s hs).2

theorem listed_flatten (s : Selector) : Listed s.flatten := by
  induction s using member_induction with
  | simple s => exact .simple s
  | joined s j hj ih =>
      by_cases hlen : (s.members j).length = 1
      · rcases List.length_eq_one_iff.mp hlen with ⟨m, hm⟩
        rw [flatten_of_lone hj hm]
        exact ih m (by rw [hm]; exact List.mem_singleton_self m)
      · rw [flatten_of_several hj hlen]
        refine normal_join_iff.mpr ⟨by rwa [List.length_map], ?_⟩
        intro part hpart
        rcases List.mem_map.mp hpart with ⟨m, hm, rfl⟩
        exact ⟨ih m hm, trivial⟩

theorem Flat.flatten {s : Selector} (h : Flat s) : s.flatten = s := by
  induction h with
  | simple s => rfl
  | joined j hlen hparts hfits ih =>
      have hmembers := members_join_of_fits hfits
      rw [flatten_of_several (junction?_join j _) (by rwa [hmembers]), hmembers]
      rw [List.map_congr_left ih, List.map_id']

/-!
## Sizes
-/

mutual

/-- The number of junctions and of simple selectors in a tree, where one for two
selectors counts twice. -/
def size (s : Selector) : Nat :=
  match s with
  | .simple _ => 1
  | .all inner => 1 + sizeOfAll inner
  | .any inner => 1 + sizeOfAll inner
  | .and left right => 2 + (left.size + right.size)
  | .or left right => 2 + (left.size + right.size)

def sizeOfAll (inner : List Selector) : Nat :=
  match inner with
  | [] => 0
  | s :: inner => s.size + sizeOfAll inner

end

@[simp] theorem sizeOfAll_append (left right : List Selector) :
    sizeOfAll (left ++ right) = sizeOfAll left + sizeOfAll right := by
  induction left with
  | nil => exact (Nat.zero_add _).symm
  | cons s left ih => rw [List.cons_append, sizeOfAll, sizeOfAll, ih, Nat.add_assoc]

theorem sizeOfAll_flatMap_le {f : Selector -> List Selector} {inner : List Selector}
    (h : forall s, s ∈ inner -> sizeOfAll (f s) ≤ s.size) :
    sizeOfAll (inner.flatMap f) ≤ sizeOfAll inner := by
  induction inner with
  | nil => exact Nat.le_refl 0
  | cons s inner ih =>
      rw [List.forall_mem_cons] at h
      rw [List.flatMap_cons, sizeOfAll_append, sizeOfAll]
      exact Nat.add_le_add h.1 (ih h.2)

theorem sizeOfAll_flatMap_lt {f : Selector -> List Selector} {inner : List Selector}
    (h : forall s, s ∈ inner -> sizeOfAll (f s) ≤ s.size) {u : Selector} (hu : u ∈ inner)
    (hlt : sizeOfAll (f u) < u.size) : sizeOfAll (inner.flatMap f) < sizeOfAll inner := by
  rcases List.append_of_mem hu with ⟨front, back, rfl⟩
  have hfront := sizeOfAll_flatMap_le fun s hs => h s (List.mem_append_left _ hs)
  have hback := sizeOfAll_flatMap_le fun s hs =>
    h s (List.mem_append_right _ (List.mem_cons_of_mem u hs))
  rw [List.flatMap_append, List.flatMap_cons]
  simp only [sizeOfAll_append, sizeOfAll]
  omega

@[simp] theorem size_join (j : Junction) (parts : List Selector) :
    (j.join parts).size = 1 + sizeOfAll parts := by
  cases j <;> rfl

theorem sizeOfAll_branches {s : Selector} {j : Junction} (h : s.junction? = some j) :
    1 + sizeOfAll s.branches ≤ s.size := by
  cases s with
  | simple => cases h
  | all inner => exact Nat.le_refl _
  | any inner => exact Nat.le_refl _
  | and left right =>
      simp only [branches, sizeOfAll, size]
      omega
  | or left right =>
      simp only [branches, sizeOfAll, size]
      omega

theorem eq_join_of_size {s : Selector} {j : Junction} (h : s.junction? = some j)
    (hsize : s.size = 1 + sizeOfAll s.branches) : s = j.join s.branches := by
  cases s with
  | simple => cases h
  | all inner =>
      cases h
      rfl
  | any inner =>
      cases h
      rfl
  | and left right =>
      simp only [branches, sizeOfAll, size] at hsize
      omega
  | or left right =>
      simp only [branches, sizeOfAll, size] at hsize
      omega

theorem sizeOfAll_members_le (s : Selector) (j : Junction) :
    sizeOfAll (s.members j) ≤ s.size := by
  induction s using branch_induction with
  | simple s => exact Nat.le_refl _
  | joined s k hk ih =>
      by_cases hj : s.junction? = some j
      · have hbranches := sizeOfAll_branches hj
        have hmembers := sizeOfAll_flatMap_le ih
        rw [members_of_junction? hj]
        omega
      · rw [members_of_not_junction? hj]
        exact Nat.le_refl _

theorem sizeOfAll_members_branches_le {s : Selector} {j : Junction} (h : s.junction? = some j) :
    sizeOfAll (s.members j) ≤ sizeOfAll s.branches := by
  rw [members_of_junction? h]
  exact sizeOfAll_flatMap_le fun u _ => sizeOfAll_members_le u j

theorem sizeOfAll_members_lt {s : Selector} {j : Junction} (h : s.junction? = some j) :
    sizeOfAll (s.members j) < s.size := by
  have hbranches := sizeOfAll_branches h
  have hmembers := sizeOfAll_members_branches_le h
  omega

theorem eq_join_members_of_size {s : Selector} {j : Junction} (h : s.junction? = some j)
    (hsize : s.size = 1 + sizeOfAll (s.members j)) : s = j.join (s.members j) := by
  have hbranches := sizeOfAll_branches h
  have hmembers := sizeOfAll_members_branches_le h
  have hs : s = j.join s.branches := eq_join_of_size h (by omega)
  have hfits : forall u, u ∈ s.branches -> u.junction? ≠ some j := by
    intro u hu hj
    have hlt : sizeOfAll (s.members j) < sizeOfAll s.branches := by
      rw [members_of_junction? h]
      exact sizeOfAll_flatMap_lt (fun u _ => sizeOfAll_members_le u j) hu (sizeOfAll_members_lt hj)
    omega
  have hmembers : s.members j = s.branches := by
    rw [hs, members_join_of_fits hfits, branches_join]
  rw [hmembers]
  exact hs

theorem size_collapse_le (j : Junction) (parts : List Selector) :
    (j.collapse parts).size ≤ 1 + sizeOfAll parts := by
  match parts with
  | [] => exact Nat.le_of_eq (size_join j [])
  | [s] => simp [Junction.collapse, sizeOfAll]
  | s :: u :: parts => exact Nat.le_of_eq (size_join j _)

theorem sizeOfAll_map_flatten_le {parts : List Selector}
    (h : forall s, s ∈ parts -> s.flatten.size ≤ s.size) :
    sizeOfAll (parts.map Selector.flatten) ≤ sizeOfAll parts := by
  rw [List.map_eq_flatMap]
  exact sizeOfAll_flatMap_le h

theorem size_flatten_le (s : Selector) : s.flatten.size ≤ s.size := by
  induction s using member_induction with
  | simple s => exact Nat.le_refl _
  | joined s j hj ih =>
      have hmembers := sizeOfAll_members_lt hj
      have hflat := sizeOfAll_map_flatten_le ih
      have hcollapse := size_collapse_le j ((s.members j).map Selector.flatten)
      rw [flatten_of_members hj]
      omega

/-- Only a flat selector keeps its size. -/
theorem flat_of_size_flatten {s : Selector} (h : s.flatten.size = s.size) : Flat s := by
  induction s using member_induction with
  | simple s => exact .simple s
  | joined s j hj ih =>
      have hlt := sizeOfAll_members_lt hj
      by_cases hlen : (s.members j).length = 1
      · rcases List.length_eq_one_iff.mp hlen with ⟨m, hm⟩
        have hle := size_flatten_le m
        rw [flatten_of_lone hj hm] at h
        rw [hm, sizeOfAll, sizeOfAll] at hlt
        omega
      · rw [flatten_of_several hj hlen, size_join] at h
        have hle := sizeOfAll_map_flatten_le fun m (_ : m ∈ s.members j) => size_flatten_le m
        rw [eq_join_members_of_size hj (by omega)]
        refine normal_join_iff.mpr ⟨hlen, ?_⟩
        intro m hm
        refine ⟨ih m hm ?_, junction?_of_mem_members hm⟩
        rcases Nat.lt_or_eq_of_le (size_flatten_le m) with hless | hsame
        · have hlt := sizeOfAll_flatMap_lt (f := fun s => [s.flatten])
            (fun u _ => size_flatten_le u) hm hless
          rw [← List.map_eq_flatMap] at hlt
          omega
        · exact hsame

theorem flatten_eq_self_iff {s : Selector} : s.flatten = s ↔ Flat s := by
  constructor
  · intro h
    exact flat_of_size_flatten (congrArg size h)
  · exact Flat.flatten

/-!
## When flattening once is enough
-/

/-- Flattened, the selector is a list of a kind: it is a list of several parts or of
none, or it holds nothing but a selector that comes down to such a list. -/
inductive ComesDownTo (j : Junction) : Selector -> Prop where
  | several {s : Selector} (hs : s.junction? = some j) (hlen : (s.members j).length ≠ 1) :
      ComesDownTo j s
  | lone {s m : Selector} {k : Junction} (hs : s.junction? = some k) (hm : s.members k = [m])
      (h : ComesDownTo j m) : ComesDownTo j s

/-- No member of a list comes down to a list of the same kind, except for a member that
is all there is in its list and takes its place. -/
inductive Untangled : Selector -> Prop where
  | simple (s : Simple) : Untangled (.simple s)
  | several {s : Selector} {j : Junction} (hs : s.junction? = some j)
      (hlen : (s.members j).length ≠ 1) (hmembers : forall m, m ∈ s.members j -> Untangled m)
      (hkinds : forall m, m ∈ s.members j -> ¬ComesDownTo j m) : Untangled s
  | lone {s m : Selector} {j : Junction} (hs : s.junction? = some j) (hm : s.members j = [m])
      (h : Untangled m) : Untangled s

section Cases

variable {s m : Selector} {j k : Junction}

theorem not_several_of_lone (hs : s.junction? = some j) (hm : s.members j = [m])
    (hk : s.junction? = some k) (hlen : (s.members k).length ≠ 1) : False := by
  rw [hs] at hk
  cases hk
  rw [hm] at hlen
  exact hlen rfl

theorem eq_of_lone {m' : Selector} (hs : s.junction? = some j) (hm : s.members j = [m])
    (hk : s.junction? = some k) (hm' : s.members k = [m']) : m = m' := by
  rw [hs] at hk
  cases hk
  rw [hm] at hm'
  exact (List.cons.inj hm').1

theorem comesDownTo_of_lone (hs : s.junction? = some k) (hm : s.members k = [m]) :
    ComesDownTo j s ↔ ComesDownTo j m := by
  constructor
  · intro h
    cases h with
    | several hj hlen => exact (not_several_of_lone hs hm hj hlen).elim
    | lone hk hm' h =>
        rw [eq_of_lone hs hm hk hm']
        exact h
  · exact .lone hs hm

theorem comesDownTo_of_several (hs : s.junction? = some k) (hlen : (s.members k).length ≠ 1) :
    ComesDownTo j s ↔ k = j := by
  constructor
  · intro h
    cases h with
    | several hj _ => exact Option.some.inj (hs.symm.trans hj)
    | lone hk hm _ => exact (not_several_of_lone hk hm hs hlen).elim
  · rintro rfl
    exact .several hs hlen

theorem untangled_of_lone (hs : s.junction? = some j) (hm : s.members j = [m]) :
    Untangled s ↔ Untangled m := by
  constructor
  · intro h
    cases h with
    | simple => cases hs
    | several hk hlen => exact (not_several_of_lone hs hm hk hlen).elim
    | lone hk hm' h =>
        rw [eq_of_lone hs hm hk hm']
        exact h
  · exact .lone hs hm

theorem untangled_of_several (hs : s.junction? = some j) (hlen : (s.members j).length ≠ 1) :
    Untangled s ↔ forall m, m ∈ s.members j -> Untangled m ∧ ¬ComesDownTo j m := by
  constructor
  · intro h
    cases h with
    | simple => cases hs
    | several hk _ hmembers hkinds =>
        rw [hs] at hk
        cases hk
        exact fun m hm => ⟨hmembers m hm, hkinds m hm⟩
    | lone hk hm _ => exact (not_several_of_lone hk hm hs hlen).elim
  · intro h
    exact .several hs hlen (fun m hm => (h m hm).1) fun m hm => (h m hm).2

end Cases

theorem junction?_flatten_iff {s : Selector} {j : Junction} :
    s.flatten.junction? = some j ↔ ComesDownTo j s := by
  induction s using member_induction with
  | simple s =>
      constructor
      · exact fun h => nomatch h
      · rintro (⟨hs, _⟩ | ⟨hs, _, _⟩) <;> cases hs
  | joined s k hk ih =>
      by_cases hlen : (s.members k).length = 1
      · rcases List.length_eq_one_iff.mp hlen with ⟨m, hm⟩
        rw [flatten_of_lone hk hm, comesDownTo_of_lone hk hm]
        exact ih m (by rw [hm]; exact List.mem_singleton_self m)
      · rw [flatten_of_several hk hlen, comesDownTo_of_several hk hlen, junction?_join,
          Option.some.injEq]

theorem flat_flatten_iff {s : Selector} : Flat s.flatten ↔ Untangled s := by
  induction s using member_induction with
  | simple s => exact ⟨fun _ => .simple s, fun _ => .simple s⟩
  | joined s j hj ih =>
      by_cases hlen : (s.members j).length = 1
      · rcases List.length_eq_one_iff.mp hlen with ⟨m, hm⟩
        rw [flatten_of_lone hj hm, untangled_of_lone hj hm]
        exact ih m (by rw [hm]; exact List.mem_singleton_self m)
      · have hmap : ((s.members j).map Selector.flatten).length ≠ 1 := by
          rwa [List.length_map]
        rw [flatten_of_several hj hlen, untangled_of_several hj hlen, Flat, normal_join_iff,
          and_iff_right hmap, List.forall_mem_map]
        refine forall_congr' fun m => forall_congr' fun hm => ?_
        exact and_congr (ih m hm) (not_congr junction?_flatten_iff)

/-- A flattened selector is made of lists without single parts.  It is flat, and stays as
it is when it is flattened again, exactly if no member of a list came down to a list of
the same kind. -/
theorem flatten_settles_iff (s : Selector) :
    Listed s.flatten ∧ (Flat s.flatten ↔ Untangled s) ∧
      (s.flatten.flatten = s.flatten ↔ Untangled s) := by
  refine ⟨listed_flatten s, flat_flatten_iff, ?_⟩
  rw [flatten_eq_self_iff, flat_flatten_iff]

def nestedClasses : Selector :=
  .any [.all [.any [.simple (.className "a"), .simple (.className "b")]],
    .simple (.className "c")]

theorem flatten_nestedClasses :
    nestedClasses.flatten =
      .any [.any [.simple (.className "a"), .simple (.className "b")],
        .simple (.className "c")] := rfl

/-- The conjunction of one part is replaced by that part, a disjunction in a disjunction,
and flattening again takes it apart. -/
theorem not_settles_nestedClasses :
    ¬Flat nestedClasses.flatten ∧ nestedClasses.flatten.flatten ≠ nestedClasses.flatten := by
  have hflat : ¬Flat nestedClasses.flatten := by
    intro h
    rw [flatten_nestedClasses] at h
    have hjoined : Flat (Junction.disjunction.join
        [.any [.simple (.className "a"), .simple (.className "b")],
          .simple (.className "c")]) := h
    exact ((normal_join_iff.mp hjoined).2 _ List.mem_cons_self).2 rfl
  exact ⟨hflat, fun h => hflat (flatten_eq_self_iff.mp h)⟩

end Selector
end StyleTokens
