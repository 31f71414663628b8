import StyleTokens.Proofs.Selector.Flat
import StyleTokens.Proofs.Selector.Grammar

/-!
# Groups do not disturb each other

Each group between two commas is a selector or an error, whatever stands in the other
groups.  The one thing that a group hears of the groups before it is where the last of them
started, and only the message of an empty group says so.  The selectors of the groups are
put in one list without being flattened any further, so a comma between two preludes puts
what each of them was read as side by side.
-/

namespace StyleTokens
namespace Selector

variable {r : SelectorRegistry}

/-!
## Groups of two runs
-/

theorem groups_eq_splitOnP (ts : List Token) :
    groups ts = ts.splitOnP fun t => t.is Css.comma := by
  induction ts with
  | nil => rfl
  | cons t ts ih =>
      rw [groups, List.splitOnP_cons_eq_if_modifyHead, ← ih]
      split
      · rfl
      · split
        · rename_i hnil
          exact absurd hnil (groups_ne_nil ts)
        · rename_i group rest hgroups
          rw [hgroups]
          rfl

theorem groups_append_comma {comma : Token} (h : comma.is Css.comma = true)
    (ts others : List Token) : groups (ts ++ comma :: others) = groups ts ++ groups others := by
  rw [groups_eq_splitOnP, groups_eq_splitOnP, groups_eq_splitOnP,
    List.splitOnP_append_cons ts others h]

theorem exists_readGroups_append (l : Location) (gs others : List (List Token)) :
    exists l', readGroups r l (gs ++ others) = readGroups r l gs ++ readGroups r l' others := by
  induction gs generalizing l with
  | nil => exact ⟨l, rfl⟩
  | cons group gs ih =>
      simp only [List.cons_append, readGroups]
      obtain ⟨l', hl'⟩ := ih _
      exact ⟨l', by rw [hl']⟩

/-- The result is what a group is read as, wherever the group before it started. -/
def ReadsAs (r : SelectorRegistry) (group : List Token)
    (result : Except SelectorError Selector) : Prop :=
  exists l, result = readGroup r l (trimGroup group)

theorem readsAs_readGroups (l : Location) (gs : List (List Token)) :
    List.Forall₂ (ReadsAs r) gs (readGroups r l gs) := by
  induction gs generalizing l with
  | nil => exact .nil
  | cons group gs ih =>
      rw [readGroups]
      exact .cons ⟨_, rfl⟩ (ih _)

/-!
## Results up to the place of an empty group
-/

/-- The same error, except that two empty groups can stand in different places. -/
def SameButPlace (e e' : SelectorError) : Prop :=
  e = e' ∨ exists l l', e = .empty l ∧ e' = .empty l'

/-- The same selector or, up to the place of an empty group, the same error. -/
inductive SameResult : Except SelectorError Selector -> Except SelectorError Selector -> Prop where
  | ok (s : Selector) : SameResult (.ok s) (.ok s)
  | error {e e' : SelectorError} (h : SameButPlace e e') : SameResult (.error e) (.error e')

/-- Where the group before it started is no matter to a group that is not empty. -/
theorem sameResult_readGroup (l l' : Location) (group : List Token) :
    SameResult (readGroup r l group) (readGroup r l' group) := by
  unfold readGroup
  split
  · exact .error (.inl rfl)
  · exact .error (.inr ⟨l, l', rfl, rfl⟩)
  · exact .ok _

theorem sameResult_readGroups (l l' : Location) (gs : List (List Token)) :
    List.Forall₂ SameResult (readGroups r l gs) (readGroups r l' gs) := by
  induction gs generalizing l l' with
  | nil => exact .nil
  | cons group gs ih =>
      rw [readGroups, readGroups]
      exact .cons (sameResult_readGroup _ _ _) (ih _ _)

def errorOf? : Except SelectorError Selector -> Option SelectorError
  | .error e => some e
  | .ok _ => none

section Results

variable {xs ys : List (Except SelectorError Selector)}

theorem filterMap_toOption_of_sameResult (h : List.Forall₂ SameResult xs ys) :
    xs.filterMap Except.toOption = ys.filterMap Except.toOption := by
  rw [← List.forall₂_eq_eq_eq]
  refine List.rel_filterMap ?_ h
  intro x y hxy
  cases hxy with
  | ok s => exact .some rfl
  | error h => exact .none

theorem forall₂_errors_of_sameResult (h : List.Forall₂ SameResult xs ys) :
    List.Forall₂ SameButPlace (xs.filterMap errorOf?) (ys.filterMap errorOf?) := by
  refine List.rel_filterMap ?_ h
  intro x y hxy
  cases hxy with
  | ok s => exact .none
  | error h => exact .some h

end Results

/-!
## The selector of several groups
-/

/-- A flat selector that is no disjunction. -/
def IsCompound (s : Selector) : Prop := Flat s ∧ s.junction? ≠ some .disjunction

theorem flat_collapse {j : Junction} {parts : List Selector}
    (h : forall s, s ∈ parts -> Flat s ∧ s.junction? ≠ some j) : Flat (j.collapse parts) := by
  match parts with
  | [] => exact normal_join_iff.mpr ⟨Nat.zero_ne_one, h⟩
  | [s] => exact (h s List.mem_cons_self).1
  | s :: u :: more => exact normal_join_iff.mpr ⟨by simp, h⟩

theorem isCompound_ofSimples (group : List Simple) : IsCompound (ofSimples group) := by
  constructor
  · apply flat_collapse
    intro s hs
    obtain ⟨simple, -, rfl⟩ := List.mem_map.mp hs
    exact ⟨.simple simple, by simp [junction?]⟩
  · match group with
    | [] => simp [ofSimples, Junction.collapse, Junction.join, junction?]
    | [s] => simp [ofSimples, Junction.collapse, junction?]
    | s :: u :: more => simp [ofSimples, Junction.collapse, Junction.join, junction?]

theorem isCompound_of_readsAs {group : List Token} {s : Selector}
    (h : ReadsAs r group (.ok s)) : IsCompound s := by
  obtain ⟨l, hl⟩ := h
  obtain ⟨parts, -, -, rfl⟩ := readGroup_eq_ok_iff.mp hl.symm
  exact isCompound_ofSimples parts

theorem isCompound_of_mem {gs : List (List Token)} {results : List (Except SelectorError Selector)}
    (h : List.Forall₂ (ReadsAs r) gs results) :
    forall s, s ∈ results.filterMap Except.toOption -> IsCompound s := by
  induction h with
  | nil => exact List.forall_mem_nil _
  | @cons group result gs results hfirst _ ih =>
      cases result with
      | ok s => exact List.forall_mem_cons.mpr ⟨isCompound_of_readsAs hfirst, ih⟩
      | error e => exact ih

/-- None of no selectors, a single one itself, and several side by side. -/
def sideBySide? : List Selector -> Option Selector
  | [] => none
  | [s] => some s
  | s :: u :: more => some (.any (s :: u :: more))

theorem ofGroups?_eq_sideBySide? (ss : List Selector) : ofGroups? ss = sideBySide? ss := by
  match ss with
  | [] => rfl
  | [s] => rfl
  | s :: u :: more => rfl

theorem flatten_of_sideBySide? {ss : List Selector} {s : Selector}
    (hss : forall s, s ∈ ss -> IsCompound s) (h : sideBySide? ss = some s) : s.flatten = s := by
  apply Flat.flatten
  rw [← ofGroups?_eq_sideBySide?] at h
  unfold ofGroups? at h
  split at h
  · cases h
  · rw [← Option.some.inj h]
    exact flat_collapse hss

end Selector

namespace RuleSelector

open Selector

variable {r : SelectorRegistry}

def weighed (s : Selector) : RuleSelector := ⟨s, s.specificity⟩

def survivors : Option RuleSelector -> List Selector
  | none => []
  | some ⟨.any parts, _⟩ => parts
  | some ⟨s, _⟩ => [s]

theorem survivors_sideBySide? {ss : List Selector} (h : forall s, s ∈ ss -> IsCompound s) :
    survivors ((sideBySide? ss).map weighed) = ss := by
  match ss with
  | [] => rfl
  | [s] =>
      have hs : s.junction? ≠ some .disjunction := (h s List.mem_cons_self).2
      cases s with
      | any parts => exact absurd rfl hs
      | simple s => rfl
      | all parts => rfl
      | and left right => rfl
      | or left right => rfl
  | s :: u :: more => rfl

theorem read_eq_sideBySide? (r : SelectorRegistry) (values : List Token) :
    read r values =
      let results := readGroups r (Queue.location values) (Selector.groups values)
      ⟨(sideBySide? (results.filterMap Except.toOption)).map weighed,
        results.filterMap errorOf?⟩ := by
  have hcompounds := isCompound_of_mem
    (readsAs_readGroups (r := r) (Queue.location values) (Selector.groups values))
  rw [read, ofGroups?_eq_sideBySide?]
  apply congrArg (fun value => Outcome.mk value _)
  apply Option.map_congr
  intro s hs
  rw [ofSelector, flatten_of_sideBySide? hcompounds hs, weighed]

theorem survivors_read (r : SelectorRegistry) (values : List Token) :
    survivors (read r values).value =
      (readGroups r (Queue.location values) (Selector.groups values)).filterMap
        Except.toOption := by
  rw [read_eq_sideBySide?]
  exact survivors_sideBySide? (isCompound_of_mem (readsAs_readGroups _ _))

/-- A comma between two preludes leaves the results of both as they are, up to the place of
an empty group. -/
theorem sameResult_append_comma {comma : Token} (h : comma.is Css.comma = true) (l l₁ l₂ : Location)
    (values others : List Token) :
    List.Forall₂ SameResult
      (readGroups r l (Selector.groups (values ++ comma :: others)))
      (readGroups r l₁ (Selector.groups values) ++ readGroups r l₂ (Selector.groups others)) := by
  rw [groups_append_comma h]
  obtain ⟨l', hl'⟩ := exists_readGroups_append (r := r) l (Selector.groups values)
    (Selector.groups others)
  rw [hl']
  exact List.rel_append (sameResult_readGroups _ _ _) (sameResult_readGroups _ _ _)

/-- Two preludes with a comma between them are read as the survivors of both side by side,
with the errors of both, of which only an empty group reports another place.  Within a
prelude every group is one survivor or one error, which no other group has a say in. -/
theorem read_isolated (r : SelectorRegistry) :
    (forall values others comma, comma.is Css.comma = true ->
      let whole := read r (values ++ comma :: others)
      let front := read r values
      let behind := read r others
      whole.value =
          (sideBySide? (survivors front.value ++ survivors behind.value)).map weighed ∧
        List.Forall₂ SameButPlace whole.errors (front.errors ++ behind.errors)) ∧
    forall values, exists results,
      List.Forall₂ (ReadsAs r) (values.splitOnP fun t => t.is Css.comma) results ∧
        survivors (read r values).value = results.filterMap Except.toOption ∧
        (read r values).errors = results.filterMap errorOf? := by
  constructor
  · intro values others comma h whole front behind
    have hsame := sameResult_append_comma (r := r) h (Queue.location (values ++ comma :: others))
      (Queue.location values) (Queue.location others) values others
    constructor
    · rw [survivors_read, survivors_read, ← List.filterMap_append,
        ← filterMap_toOption_of_sameResult hsame]
      exact congrArg Outcome.value (read_eq_sideBySide? r _)
    · have herrors := forall₂_errors_of_sameResult hsame
      rwa [List.filterMap_append] at herrors
  · intro values
    rw [← groups_eq_splitOnP]
    exact ⟨_, readsAs_readGroups _ _, survivors_read r values, rfl⟩

def typeAndUnknown : List Token :=
  [⟨Css.ident, .text "a", ⟨1, 1, 0⟩, none⟩, ⟨Css.comma, .none, ⟨1, 2, 1⟩, none⟩,
    ⟨Css.colon, .none, ⟨1, 3, 2⟩, none⟩, ⟨Css.ident, .text "hovr", ⟨1, 4, 3⟩, none⟩]

def closingComma : Token := ⟨Css.comma, .none, ⟨1, 8, 7⟩, none⟩

/-- The type survives the group that is dropped and the one that is empty.  The empty group
is reported where the dropped one started, and at no known place where it is read alone. -/
theorem read_isolated_typeAndUnknown :
    closingComma.is Css.comma = true ∧
      (read .standard (typeAndUnknown ++ [closingComma])).value =
        some (weighed (.simple (.type "a"))) ∧
      List.Forall₂ SameButPlace (read .standard (typeAndUnknown ++ [closingComma])).errors
        [.unknownPseudoClass "hovr" ⟨1, 4, 3⟩, .empty .unknown] ∧
      .empty ⟨1, 3, 2⟩ ∈ (read .standard (typeAndUnknown ++ [closingComma])).errors := by
  have h : closingComma.is Css.comma = true := by decide
  obtain ⟨hvalue, herrors⟩ := (read_isolated .standard).1 typeAndUnknown [] closingComma h
  exact ⟨h, hvalue, herrors, by decide⟩

end RuleSelector
end StyleTokens
