import StyleTokens.Selector.Function
import StyleTokens.Selector.Specificity
import StyleTokens.Text.Ascii

/-!
# Simple selectors

One question about one element.
-/

namespace StyleTokens

/-- A selector without parts. -/
inductive Simple where
  /-- Every element. -/
  | universal
  | type (name : String)
  | className (name : String)
  | identifier (name : String)
  | pseudoClass (name : String)
  | function (f : FunctionSelector)

namespace Simple

/-- Does the selector match an element?  The case of types does not matter. -/
def accepts (s : Simple) (e : Element) : Bool :=
  match s with
  | universal => true
  | type name => Text.sameFolded e.type name
  | className name => e.hasClass name
  | identifier name => e.id? == some name
  | pseudoClass name => e.hasState name
  | function f => f.accepts e

def specificity : Simple -> Specificity
  | universal => .zero
  | type _ => .oneType
  | className _ => .oneClass
  | identifier _ => .oneId
  | pseudoClass _ => .oneClass
  | function _ => .oneClass

/-- Does the selector have to stand first where several are written together? -/
def leads : Simple -> Bool
  | universal => true
  | type _ => true
  | _ => false

def text : Simple -> String
  | universal => "*"
  | type name => Css.ident.encode name
  | className name => "." ++ Css.ident.encode name
  | identifier name => Css.hash.encode name
  | pseudoClass name => ":" ++ Css.ident.encode name
  | function f => ":" ++ Css.function.encode f.name ++ Token.runSource f.args ++ ")"

def same : Simple -> Simple -> Bool
  | universal, universal => true
  | type a, type b => a == b
  | className a, className b => a == b
  | identifier a, identifier b => a == b
  | pseudoClass a, pseudoClass b => a == b
  | function f, function g => f.same g
  | _, _ => false

def compoundText (group : List Simple) : String :=
  match group with
  | [] => "*"
  | _ => String.join ((group.filter leads ++ group.filter fun s => !s.leads).map text)

end Simple

end StyleTokens
