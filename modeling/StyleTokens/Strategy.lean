import StyleTokens.Outcome
import StyleTokens.Queue
import StyleTokens.Strategy.Args
import StyleTokens.Strategy.Error

/-!
# Strategies

A strategy turns a run of tokens into a value and a value back into tokens.  It
takes its tokens from the front of the run, and always gives a value; what is
wrong with the run is reported beside it.
-/

namespace StyleTokens

/-- A value read from the front of a run, what is wrong with it, and the rest. -/
structure Reading (α : Type) (input : List Token) where
  value : α
  errors : List StrategyError
  rest : List Token
  rest_suffix : rest <:+ input

namespace Reading

@[ext] theorem ext {input : List Token} {a b : Reading α input} (hv : a.value = b.value)
    (he : a.errors = b.errors) (hr : a.rest = b.rest) : a = b := by
  cases a
  cases b
  cases hv
  cases he
  cases hr
  rfl

def stay (input : List Token) (a : α) (errors : List StrategyError) : Reading α input :=
  ⟨a, errors, input, List.suffix_refl input⟩

def map {input : List Token} (f : α -> β) (r : Reading α input) : Reading β input :=
  ⟨f r.value, r.errors, r.rest, r.rest_suffix⟩

def ofSuffix {inner input : List Token} (h : inner <:+ input) (r : Reading α inner) :
    Reading α input :=
  ⟨r.value, r.errors, r.rest, r.rest_suffix.trans h⟩

def outcome {input : List Token} (r : Reading α input) : Outcome StrategyError α :=
  ⟨r.value, r.errors⟩

def isClean {input : List Token} (r : Reading α input) : Bool := r.errors.isEmpty

end Reading

/-- A way to read values from tokens and to write them as tokens. -/
structure Strategy (α : Type) where
  /-- The name of the strategy in messages. -/
  id : String
  /-- May a run start with this token? -/
  accepts : Args -> Token -> Bool
  /-- Read a value.  The flag tells whether an enclosing reading has failed
  already. -/
  read : Args -> Bool -> (input : List Token) -> Reading α input
  /-- Write a value as tokens. -/
  emit : α -> Except StrategyError (List Token)

namespace Strategy

/-- What a strategy reads does not depend on failures around it. -/
def IsSteady (s : Strategy α) : Prop :=
  forall args failed input, s.read args failed input = s.read args false input

def fresh (s : Strategy α) : Outcome StrategyError α := (s.read {} false []).outcome

end Strategy

end StyleTokens
