import StyleTokens.Structure.Error

/-!
# Selector errors

What can be wrong with the names that selectors may use, and with selectors.
-/

namespace StyleTokens

inductive SelectorError where
  | duplicatePseudoClass (name : String)
  | duplicateFunction (name : String)
  | unknownPseudoClass (name : String) (location : Location)
  | unknownFunction (name : String) (location : Location)
  | invalidArguments (name reason : String) (location : Location)
  | invalid (text : String) (location : Location)
  | combinator (location : Location)
  | empty (location : Location)
  /-- The tokens of the selector are no run of component values. -/
  | malformed (e : StructureError)
  deriving DecidableEq, Repr

namespace SelectorError

def message : SelectorError -> String
  | duplicatePseudoClass name => "Pseudo-class '" ++ name ++ "' registered twice"
  | duplicateFunction name => "Selector function '" ++ name ++ "' registered twice"
  | unknownPseudoClass name l => "Unknown pseudo-class ':" ++ name ++ "' at " ++ l.text
  | unknownFunction name l => "Unknown selector function ':" ++ name ++ "()' at " ++ l.text
  | invalidArguments name reason l =>
      "Invalid arguments for ':" ++ name ++ "()' at " ++ l.text ++ ": " ++ reason
  | invalid text l => "Invalid selector '" ++ text ++ "' at " ++ l.text
  | combinator l => "Combinators are not supported, found at " ++ l.text
  | empty l => "Empty selector at " ++ l.text
  | malformed e => e.message

end SelectorError

end StyleTokens
