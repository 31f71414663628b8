import StyleTokens.Strategy.Spec

/-!
# Composed strategies

The strategies of this library: primitive ones, and what lists, pairs, mappings and choices
make of others, at any depth.  None of them depends on failures around it.
-/

namespace StyleTokens
namespace Strategy

/-- Strategies that are composed of primitive ones. -/
inductive Composed : {α : Type} -> Strategy α -> Prop where
  | primitive (p : Primitive α σ) (scope : Scope) (provider : Option (α -> List Token)) :
      Composed (p.strategy scope provider)
  | list {element : Strategy α} (h : Composed element) (shape : ListShape) :
      Composed (element.list shape)
  | pair {first : Strategy α} {second : Strategy β} (hfirst : Composed first)
      (hsecond : Composed second) (delimiter : Option Delimiter) :
      Composed (first.pair second delimiter)
  | keyed {key : Strategy α} {select : α -> Option (Strategy β)} (hkey : Composed key)
      (hselect : forall a second, select a = some second -> Composed second)
      (shown : α -> String) (delimiter : Delimiter) :
      Composed (key.keyed select shown delimiter)
  | mapping [BEq κ] {entry : Strategy (Option (κ × ν))} (h : Composed entry)
      (shape : ListShape) (shown : κ -> String) : Composed (entry.mapping shape shown)
  | choice {candidates : List (Strategy α)} (h : forall s, s ∈ candidates -> Composed s)
      (provider : Option (α -> List Token)) : Composed (choice candidates provider)
  | adapt {s : Strategy α} (h : Composed s) (inject : α -> β) (project : β -> Option α) :
      Composed (s.adapt inject project)

/-- No strategy of this library depends on failures around it. -/
theorem Composed.isSteady {s : Strategy α} (h : s.Composed) : s.IsSteady := by
  induction h with
  | primitive p scope provider => exact Primitive.isSteady_strategy p scope provider
  | list _ shape ih => exact isSteady_list ih shape
  | pair _ _ delimiter ihfirst ihsecond => exact isSteady_pair ihfirst ihsecond delimiter
  | keyed _ _ shown delimiter ihkey ihselect =>
      exact isSteady_keyed ihkey ihselect shown delimiter
  | mapping _ shape shown ih => exact isSteady_mapping ih shape shown
  | choice _ provider ih => exact isSteady_choice ih provider
  | adapt _ inject project ih => exact isSteady_adapt ih inject project

theorem composed_lookup {table : List (String × Strategy α)}
    (h : forall e, e ∈ table -> e.2.Composed) {name : String} {s : Strategy α}
    (hs : table.lookup name = some s) : s.Composed := by
  induction table with
  | nil => simp at hs
  | cons e table ih =>
      rw [List.lookup_cons] at hs
      split at hs
      · cases hs
        exact h e List.mem_cons_self
      · exact ih (fun e he => h e (List.mem_cons_of_mem _ he)) hs

end Strategy

/-!
## Described strategies
-/

theorem PairSpec.composed_strategy (p : PairSpec)
    (h : forall spec : Spec, sizeOf spec < sizeOf p -> spec.strategy.Composed) :
    p.strategy.Composed := by
  cases p with
  | plain first second delimiter =>
      rw [PairSpec.plain.sizeOf_spec] at h
      exact .pair (h first (by omega)) (h second (by omega)) delimiter
  | keyed key table delimiter =>
      rw [PairSpec.keyed.sizeOf_spec] at h
      have htable : forall e, e ∈ Spec.table table -> e.2.Composed := by
        rw [Spec.table_eq_map, List.forall_mem_map]
        rintro ⟨name, spec⟩ he
        have hsize := List.sizeOf_lt_of_mem he
        rw [Prod.mk.sizeOf_spec] at hsize
        exact h spec (by omega)
      have hkey : key.strategy.Composed := h key (by omega)
      exact .adapt (.keyed hkey (fun _ _ hs => Strategy.composed_lookup htable hs) _ delimiter) _ _

theorem Spec.composed_strategy (spec : Spec) : spec.strategy.Composed := by
  match spec with
  | .string scope provider => exact .adapt (.primitive _ _ _) _ _
  | .number scope provider => exact .adapt (.primitive _ _ _) _ _
  | .boolean scope provider => exact .adapt (.primitive _ _ _) _ _
  | .list element shape => exact .adapt (.list element.composed_strategy shape) _ _
  | .pair p => exact .adapt (p.composed_strategy fun spec _ => spec.composed_strategy) _ _
  | .mapping entry shape =>
      exact .adapt (.mapping (entry.composed_strategy fun spec _ => spec.composed_strategy) shape _)
        _ _
  | .choice candidates provider =>
      refine .adapt (.choice (fun s hs => ?_) _) _ _
      rw [Spec.strategies_eq_map, List.mem_map] at hs
      obtain ⟨spec, hspec, rfl⟩ := hs
      exact spec.composed_strategy

end StyleTokens
