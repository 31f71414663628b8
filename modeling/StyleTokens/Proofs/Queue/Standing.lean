import Mathlib.Data.List.TakeWhile
import StyleTokens.Queue

/-!
# Where a queue stands

A queue stands at a test if it is empty or if its first token passes the test.  What is left
of a queue from the first token on that passes a test stands there.
-/

namespace StyleTokens

/-- The queue is empty or starts with a token that passes the test. -/
def StandsAt (stop : Predicate) (ts : List Token) : Prop :=
  forall t, ts.head? = some t -> stop t = true

theorem standsAt_nil (stop : Predicate) : StandsAt stop [] := by
  intro t ht
  cases ht

theorem standsAt_cons {stop : Predicate} {t : Token} (ts : List Token) (h : stop t = true) :
    StandsAt stop (t :: ts) := by
  intro u hu
  rcases Option.some.inj hu with rfl
  exact h

namespace Queue

theorem onward_of_standsAt {stop : Predicate} {ts : List Token} (h : StandsAt stop ts) :
    onward stop ts = ts := by
  cases ts with
  | nil => rfl
  | cons t ts => exact onward_cons_of_pos ts (h t rfl)

theorem standsAt_onward (stop : Predicate) (ts : List Token) :
    StandsAt stop (onward stop ts) := by
  intro t ht
  have hnot := List.head?_dropWhile_not (fun t => !stop t) ts
  rw [<- onward, ht] at hnot
  simpa using hnot

theorem stop_eq_false_of_mem_before {stop : Predicate} {ts : List Token} {t : Token}
    (h : t ∈ before stop ts) : stop t = false := by
  simpa using List.mem_takeWhile_imp h

theorem before_of_standsAt {stop : Predicate} {ts : List Token} (h : StandsAt stop ts) :
    before stop ts = [] := by
  cases ts with
  | nil => rfl
  | cons t ts => exact before_cons_of_pos ts (h t rfl)

end Queue

end StyleTokens
