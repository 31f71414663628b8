import StyleTokens.Selector.Error
import StyleTokens.Selector.Function
import StyleTokens.Text.Ascii

/-!
# Pseudo-classes and selector functions

The names behind a colon that selectors may use.  Their case does not matter, and
each is registered once.
-/

namespace StyleTokens

/-- The names that selectors may use, in lower case. -/
structure SelectorRegistry where
  pseudoClasses : List String := []
  functions : List (String × SelectorFunction) := []

namespace SelectorRegistry

def empty : SelectorRegistry := {}

def standardPseudoClasses : List String :=
  ["hover", "focus", "active", "disabled", "checked", "selected"]

def standard : SelectorRegistry := { pseudoClasses := standardPseudoClasses }

def hasPseudoClass (r : SelectorRegistry) (name : String) : Bool :=
  r.pseudoClasses.contains (Text.lower name)

def function? (r : SelectorRegistry) (name : String) : Option SelectorFunction :=
  r.functions.lookup (Text.lower name)

def registerPseudoClass (r : SelectorRegistry) (name : String) :
    Except SelectorError SelectorRegistry :=
  if r.hasPseudoClass name then .error (.duplicatePseudoClass name)
  else .ok { r with pseudoClasses := r.pseudoClasses ++ [Text.lower name] }

def registerFunction (r : SelectorRegistry) (name : String) (f : SelectorFunction) :
    Except SelectorError SelectorRegistry :=
  if (r.function? name).isSome then .error (.duplicateFunction name)
  else .ok { r with functions := r.functions ++ [(Text.lower name, f)] }

def functionNames (r : SelectorRegistry) : List String :=
  (r.functions.map Prod.fst).mergeSort fun a b => decide (a ≤ b)

def summary (r : SelectorRegistry) : String :=
  "SelectorRegistry \x7b pseudo_classes: " ++ toString r.pseudoClasses.length ++
    ", functions: [" ++ ", ".intercalate (r.functionNames.map Text.quoted) ++ "] \x7d"

end SelectorRegistry

end StyleTokens
