import StyleTokens.Strategy

/-!
# Choices

Strategies that are tried in order on the same tokens.  The first one that finds
nothing wrong decides; the others leave no trace.
-/

namespace StyleTokens
namespace Strategy

/-- Read on a copy of the queue, which takes the place of the queue if nothing is wrong.  If
something is, the queue stays as it is. -/
def attempt (s : Strategy α) (args : Args) (failed : Bool) (input : List Token) :
    Reading α input :=
  let found := s.read args failed input
  if found.isClean then found else .stay input found.value found.errors

/-- Try the candidates that accept the token at the front until one finds nothing wrong.
Each of them is tried on the queue that the one before it has left. -/
def tryEach (args : Args) (failed : Bool) (head : Token) :
    List (Strategy α) -> (input : List Token) -> Reading (Option α) input
  | [], input => .stay input none []
  | s :: candidates, input =>
      if s.accepts args head then
        let tried := s.attempt args failed input
        if tried.isClean then tried.map some
        else (tryEach args failed head candidates tried.rest).ofSuffix tried.rest_suffix
      else tryEach args failed head candidates input

def settle {input : List Token} (r : Reading (Option α) input) : Reading (Option α) input :=
  match r.value with
  | some _ => r
  | none => ⟨none, r.errors ++ [.noAlternatives], r.rest, r.rest_suffix⟩

def readChoice (candidates : List (Strategy α)) (args : Args) (failed : Bool)
    (input : List Token) : Reading (Option α) input :=
  match input with
  | [] => settle (.stay [] none [.noTokens])
  | t :: ts => settle (tryEach args failed t candidates (t :: ts))

/-- Write a value by the first candidate that can.  If none can, the error of the
last one counts. -/
def emitChoice (error : StrategyError) (a : α) :
    List (Strategy α) -> Except StrategyError (List Token)
  | [] => .error error
  | s :: candidates =>
      match s.emit a with
      | .ok ts => .ok ts
      | .error e => emitChoice e a candidates

/-- The value of the first of several strategies that fits.  A provider replaces
the usual way of writing it. -/
def choice (candidates : List (Strategy α)) (provider : Option (α -> List Token)) :
    Strategy (Option α) :=
  { id := "Alternatives"
    accepts := fun args t => candidates.any fun s => s.accepts args t
    read := readChoice candidates
    emit := fun value =>
      match value, provider with
      | none, _ => .ok []
      | some a, some f => .ok (f a)
      | some a, none => emitChoice .noAlternatives a candidates }

theorem attempt_failed {s : Strategy α} (h : s.IsSteady) (args : Args) (failed : Bool)
    (input : List Token) : s.attempt args failed input = s.attempt args false input := by
  rw [attempt, h args failed]
  rfl

theorem tryEach_failed {candidates : List (Strategy α)}
    (h : forall s, s ∈ candidates -> s.IsSteady) (args : Args) (failed : Bool) (head : Token)
    (input : List Token) :
    tryEach args failed head candidates input = tryEach args false head candidates input := by
  induction candidates generalizing input with
  | nil => rfl
  | cons s candidates ih =>
      have hrest := ih fun s hs => h s (List.mem_cons_of_mem _ hs)
      rw [tryEach, tryEach, attempt_failed (h s List.mem_cons_self)]
      simp only [hrest]

theorem isSteady_choice {candidates : List (Strategy α)}
    (h : forall s, s ∈ candidates -> s.IsSteady) (provider : Option (α -> List Token)) :
    (choice candidates provider).IsSteady := by
  intro args failed input
  cases input with
  | nil => rfl
  | cons t ts =>
      simp only [choice, readChoice, tryEach_failed h args failed]

end Strategy

end StyleTokens
