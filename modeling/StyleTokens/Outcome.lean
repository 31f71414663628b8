/-!
# Outcomes

A value with the list of what is wrong with it.  Readers report malformed input
in this way, so that their caller always gets a value.  The errors of one step
stand before those of the steps that follow it.
-/

namespace StyleTokens

/-- A value with the errors found on the way to it. -/
structure Outcome (ε α : Type) where
  value : α
  errors : List ε
  deriving DecidableEq, Repr

namespace Outcome

def success (a : α) : Outcome ε α := ⟨a, []⟩

def error (a : α) (e : ε) : Outcome ε α := ⟨a, [e]⟩

def predicated (a : α) (valid : Bool) (e : ε) : Outcome ε α :=
  if valid then success a else error a e

def failure [Inhabited α] (e : ε) : Outcome ε α := error default e

def isValid (o : Outcome ε α) : Bool := o.errors.isEmpty

def isError (o : Outcome ε α) : Bool := !o.isValid

def map (f : α -> β) (o : Outcome ε α) : Outcome ε β := ⟨f o.value, o.errors⟩

def mapErrors (f : ε -> ε') (o : Outcome ε α) : Outcome ε' α := ⟨o.value, o.errors.map f⟩

/-- Go on from the value; the errors of the first step come first. -/
def andThen (o : Outcome ε α) (f : α -> Outcome ε β) : Outcome ε β :=
  ⟨(f o.value).value, o.errors ++ (f o.value).errors⟩

def combine (a : Outcome ε α) (b : Outcome ε β) (f : α -> β -> γ) : Outcome ε γ :=
  ⟨f a.value b.value, a.errors ++ b.errors⟩

def absorb (a : Outcome ε α) (b : Outcome ε β) : Outcome ε α := ⟨a.value, a.errors ++ b.errors⟩

theorem isValid_iff {o : Outcome ε α} : o.isValid = true ↔ o.errors = [] := by
  simp [isValid]

/-!
## Messages

Outcomes whose errors are texts.  An empty text is no message when several are
given at once or when one is added later.
-/

def withMessages (a : α) (messages : List String) : Outcome String α :=
  ⟨a, messages.filter fun m => m != ""⟩

def addMessage (o : Outcome String α) (message : String) : Outcome String α :=
  if message = "" then o else ⟨o.value, o.errors ++ [message]⟩

def text (o : Outcome String α) : String :=
  "; ".intercalate o.errors

end Outcome

end StyleTokens
