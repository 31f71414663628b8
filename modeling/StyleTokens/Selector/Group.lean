import StyleTokens.Css.Dialect
import StyleTokens.Selector
import StyleTokens.Selector.Registry
import StyleTokens.Structure.Rule

/-!
# Selector groups

The prelude of a rule holds groups with commas between them.  A group is a run of
simple selectors without a gap.  A group with anything else in it is dropped and
reported; it does not disturb the others.
-/

namespace StyleTokens
namespace Simple

def isCombinator (t : Token) : Bool :=
  match t.asChar? with
  | some c => c == '>' || c == '+' || c == '~'
  | none => false

def invalid (text : String) (l : Location) : Except SelectorError α := .error (.invalid text l)

def readCall (r : SelectorRegistry) (t : Token) (c : Call) : Except SelectorError Simple :=
  let name := Text.lower c.name
  match r.function? name with
  | none => .error (.unknownFunction name t.location)
  | some f =>
      match f.prepare c.values with
      | .error reason => .error (.invalidArguments name reason t.location)
      | .ok _ => .ok (.function { name, args := c.values, function := f })

def readPseudo (r : SelectorRegistry) (t : Token) : Except SelectorError Simple :=
  if t.is Css.ident then
    let name := Text.lower t.text
    if r.hasPseudoClass name then .ok (.pseudoClass name)
    else .error (.unknownPseudoClass name t.location)
  else
    match t.asCall? with
    | some c => readCall r t c
    | none => invalid (":" ++ t.source) t.location

def before (s : Simple) (rest : Except SelectorError (List Simple)) :
    Except SelectorError (List Simple) :=
  rest.map fun group => s :: group

def readAll (r : SelectorRegistry) (ts : List Token) : Except SelectorError (List Simple) :=
  match ts with
  | [] => .ok []
  | t :: ts =>
      if t.isBlank || isCombinator t then .error (.combinator t.location)
      else if t.is Css.ident then (type (Text.lower t.text)).before (readAll r ts)
      else if t.is Css.hash then (identifier t.text).before (readAll r ts)
      else if t.asChar? == some '*' then universal.before (readAll r ts)
      else if t.asChar? == some '.' then
        match ts with
        | u :: us =>
            if u.is Css.ident then (className u.text).before (readAll r us)
            else invalid "." t.location
        | [] => invalid "." t.location
      else if t.is Css.colon then
        match ts with
        | u :: us =>
            match readPseudo r u with
            | .ok s => s.before (readAll r us)
            | .error e => .error e
        | [] => invalid ":" t.location
      else invalid t.source t.location

end Simple

namespace Selector

def groups (ts : List Token) : List (List Token) :=
  match ts with
  | [] => [[]]
  | t :: ts =>
      if t.is Css.comma then [] :: groups ts
      else
        match groups ts with
        | [] => [[t]]
        | group :: rest => (t :: group) :: rest

def trimGroup (ts : List Token) : List Token :=
  ((ts.dropWhile fun t => !t.isSignificant).reverse.dropWhile fun t => !t.isSignificant).reverse

def ofSimples (group : List Simple) : Selector :=
  Junction.conjunction.collapse (group.map .simple)

def readGroup (r : SelectorRegistry) (l : Location) (group : List Token) :
    Except SelectorError Selector :=
  match Simple.readAll r group with
  | .error e => .error e
  | .ok [] => .error (.empty l)
  | .ok (s :: group) => .ok (ofSimples (s :: group))

/-- Read several groups.  A group without tokens counts as standing where the one
before it started. -/
def readGroups (r : SelectorRegistry) (l : Location) :
    List (List Token) -> List (Except SelectorError Selector)
  | [] => []
  | group :: groups =>
      let start :=
        match trimGroup group with
        | [] => l
        | t :: _ => t.location
      readGroup r start (trimGroup group) :: readGroups r start groups

def ofGroups? (groups : List Selector) : Option Selector :=
  match groups with
  | [] => none
  | groups => some (Junction.disjunction.collapse groups)

end Selector

namespace RuleSelector

def read (r : SelectorRegistry) (values : List Token) :
    Outcome SelectorError (Option RuleSelector) :=
  let found := Selector.readGroups r (Queue.location values) (Selector.groups values)
  { value := (Selector.ofGroups? (found.filterMap Except.toOption)).map ofSelector
    errors :=
      found.filterMap fun result =>
        match result with
        | .error e => some e
        | .ok _ => none }

def parse (r : SelectorRegistry) (s : String) : Outcome SelectorError (Option RuleSelector) :=
  let run := readRun (.ofOptions {}) Token.isEof (Css.tokenize {} s)
  (Outcome.mk () (run.errors.map .malformed)).andThen fun _ => read r run.values

end RuleSelector

namespace QualifiedRule

def ruleSelector (rule : QualifiedRule) (r : SelectorRegistry) :
    Outcome SelectorError (Option RuleSelector) :=
  RuleSelector.read r rule.prelude

end QualifiedRule

end StyleTokens
