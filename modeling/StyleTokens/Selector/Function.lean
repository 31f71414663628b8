import StyleTokens.Queue
import StyleTokens.Text.Quoted

/-!
# Selector functions

A selector may ask a function about an element.  The function checks its arguments
once, when the selector is read, and is asked about every element later.
-/

namespace StyleTokens

/-- What selectors can ask about an element. -/
structure Element where
  type : String
  id? : Option String
  hasClass : String -> Bool
  /-- Is the element in the state that a pseudo-class names? -/
  hasState : String -> Bool

namespace Element

def ofLists (type : String) (id? : Option String) (classes states : List String) : Element :=
  { type, id?, hasClass := classes.contains, hasState := states.contains }

end Element

/-- The behaviour behind a selector like `:name(arguments)`. -/
structure SelectorFunction where
  /-- Check the arguments; the reason against them is a text. -/
  prepare : List Token -> Except String Unit
  /-- Does the function accept an element? -/
  accepts : List Token -> Element -> Bool

namespace SelectorFunction

def ofTest (accepts : List Token -> Element -> Bool) : SelectorFunction :=
  { prepare := fun _ => .ok (), accepts }

def always : SelectorFunction := ofTest fun _ _ => true

end SelectorFunction

/-- A function with the arguments that a selector gives to it. -/
structure FunctionSelector where
  name : String
  args : List Token
  function : SelectorFunction

namespace FunctionSelector

def accepts (f : FunctionSelector) (e : Element) : Bool := f.function.accepts f.args e

def same (f g : FunctionSelector) : Bool := f.name == g.name && Token.runSame f.args g.args

def shown (f : FunctionSelector) : String :=
  "FunctionSelector \x7b name: " ++ Text.quoted f.name ++ ", args: " ++
    Text.quoted (Token.runSource f.args) ++ " \x7d"

end FunctionSelector

end StyleTokens
