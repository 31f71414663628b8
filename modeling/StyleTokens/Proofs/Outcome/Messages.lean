import StyleTokens.Outcome

/-!
# Empty messages

An outcome with messages is read in two ways: by asking whether it is an error, and by its
text.  Both answers agree, and no message is empty, exactly if no empty message was stored
on the way to the outcome.  Several messages at once and a message that is added later are
checked; the message of a single error is stored as it is given.
-/

namespace StyleTokens
namespace Outcome

/-!
## The text of the messages
-/

/-- Two messages at least have a text, if only for the mark between them. -/
theorem text_eq_empty_iff {o : Outcome String α} :
    o.text = "" ↔ o.errors = [] ∨ o.errors = [""] := by
  unfold text
  rcases o.errors with _ | ⟨m, _ | ⟨m', ms⟩⟩
  · simp
  · simp
  · have hmark : "; " ≠ "" := by decide
    simp [String.intercalate_cons_cons, hmark]

theorem isError_iff {o : Outcome String α} : o.isError = true ↔ o.errors ≠ [] := by
  rw [isError, Bool.not_eq_true', ← Bool.not_eq_true]
  exact not_congr isValid_iff

/-- The text tells whether there is an error, and every message says something. -/
structure WellWorded (o : Outcome String α) : Prop where
  isError_iff_text : o.isError = true ↔ o.text ≠ ""
  no_empty_message : "" ∉ o.errors

theorem wellWorded_iff {o : Outcome String α} : o.WellWorded ↔ "" ∉ o.errors := by
  constructor
  · exact WellWorded.no_empty_message
  · intro hempty
    have hsingle : o.errors ≠ [""] := by
      intro h
      apply hempty
      rw [h]
      exact List.mem_singleton_self ""
    constructor
    · rw [isError_iff, Ne, Ne, text_eq_empty_iff, not_or]
      exact ⟨fun h => ⟨h, hsingle⟩, And.left⟩
    · exact hempty

theorem empty_not_mem_withMessages (a : α) (ms : List String) :
    "" ∉ (withMessages a ms).errors := by
  simp [withMessages]

theorem empty_mem_addMessage_iff (o : Outcome String α) (m : String) :
    "" ∈ (o.addMessage m).errors ↔ "" ∈ o.errors := by
  unfold addMessage
  split
  · rfl
  · rename_i hm
    simp [Ne.symm hm]

/-!
## How outcomes are made
-/

/-- The ways to make an outcome with messages, and to go on from outcomes that are made. -/
inductive Construction : Type -> Type 1 where
  | success (a : α) : Construction α
  | error (a : α) (m : String) : Construction α
  | withMessages (a : α) (ms : List String) : Construction α
  | predicated (a : α) (valid : Bool) (m : String) : Construction α
  | failure [Inhabited α] (m : String) : Construction α
  | addMessage (c : Construction α) (m : String) : Construction α
  | absorb (c : Construction α) (d : Construction β) : Construction α
  | map (f : α -> β) (c : Construction α) : Construction β
  | andThen (c : Construction α) (f : α -> Construction β) : Construction β
  | combine (c : Construction α) (d : Construction β) (f : α -> β -> γ) : Construction γ

namespace Construction

def outcome : Construction α -> Outcome String α
  | success a => .success a
  | error a m => .error a m
  | withMessages a ms => .withMessages a ms
  | predicated a valid m => .predicated a valid m
  | failure m => .failure m
  | addMessage c m => c.outcome.addMessage m
  | absorb c d => c.outcome.absorb d.outcome
  | map f c => c.outcome.map f
  | andThen c f => c.outcome.andThen fun a => (f a).outcome
  | combine c d f => c.outcome.combine d.outcome f

/-- The messages that were stored as they were given, without a check. -/
def unchecked : Construction α -> List String
  | success _ => []
  | error _ m => [m]
  | withMessages _ _ => []
  | predicated _ valid m => if valid then [] else [m]
  | failure m => [m]
  | addMessage c _ => c.unchecked
  | absorb c d => c.unchecked ++ d.unchecked
  | map _ c => c.unchecked
  | andThen c f => c.unchecked ++ (f c.outcome.value).unchecked
  | combine c d _ => c.unchecked ++ d.unchecked

/-- An empty message among the errors is one that was stored without a check: nothing else
brings one in, and none is ever taken out. -/
theorem empty_mem_errors_iff (c : Construction α) :
    "" ∈ c.outcome.errors ↔ "" ∈ c.unchecked := by
  induction c with
  | success a => rfl
  | error a m => rfl
  | withMessages a ms =>
      have hnone := empty_not_mem_withMessages a ms
      simp [outcome, unchecked, hnone]
  | predicated a valid m => cases valid <;> rfl
  | failure m => rfl
  | addMessage c m ih =>
      rw [outcome, unchecked, empty_mem_addMessage_iff]
      exact ih
  | absorb c d ihc ihd =>
      simp only [outcome, unchecked, Outcome.absorb, List.mem_append, ihc, ihd]
  | map f c ih => exact ih
  | andThen c f ihc ihf =>
      simp only [outcome, unchecked, Outcome.andThen, List.mem_append, ihc, ihf]
  | combine c d f ihc ihd =>
      simp only [outcome, unchecked, Outcome.combine, List.mem_append, ihc, ihd]

/-- However an outcome is made, its text tells whether it is an error and none of its
messages is empty, exactly if no empty message was stored without a check. -/
theorem wellWorded_outcome_iff (c : Construction α) :
    c.outcome.WellWorded ↔ "" ∉ c.unchecked := by
  rw [wellWorded_iff, empty_mem_errors_iff]

/-- A single error with an empty message is an error without a text. -/
theorem not_wellWorded_empty_error :
    (error () "").outcome.isError = true ∧ (error () "").outcome.text = "" ∧
      ¬ (error () "").outcome.WellWorded := by
  refine ⟨rfl, rfl, fun h => h.no_empty_message ?_⟩
  exact List.mem_singleton_self ""

end Construction
end Outcome
end StyleTokens
