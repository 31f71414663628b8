import StyleTokens.Structure.Component
import StyleTokens.Text.Ascii

/-!
# Declarations

A name, a colon and a run of values.  Blanks around the values are dropped, and
so is one mark of importance at their end, which becomes a flag.
-/

namespace StyleTokens

/-- A name with its values. -/
structure Declaration where
  name : String
  /-- The values without blanks around them and without the mark of importance. -/
  values : List Token
  important : Bool
  location : Location

/-!
## Trimming
-/

namespace Queue

def trimEnd (ts : List Token) : List Token :=
  (ts.reverse.dropWhile Token.isBlank).reverse

def trim (ts : List Token) : List Token :=
  (trimEnd ts).dropWhile Token.isBlank

end Queue

/-!
## Lexical errors
-/

mutual

/-- The lexical errors of a token and of the tokens in its block or call. -/
def Token.lexicalErrors (t : Token) : List StructureError :=
  match t with
  | ⟨kind, payload, location, error⟩ =>
      (match error with
        | some message =>
            [.lexical (Token.shown ⟨kind, payload, location, error⟩) message location]
        | none => []) ++
        payload.lexicalErrors

def Payload.lexicalErrors (p : Payload) : List StructureError :=
  match p with
  | .block b => b.lexicalErrors
  | .call c => c.lexicalErrors
  | _ => []

def Block.lexicalErrors (b : Block) : List StructureError :=
  match b with
  | ⟨_, _, values, _⟩ => Token.runLexicalErrors values

def Call.lexicalErrors (c : Call) : List StructureError :=
  match c with
  | ⟨_, values, _⟩ => Token.runLexicalErrors values

def Token.runLexicalErrors (ts : List Token) : List StructureError :=
  match ts with
  | [] => []
  | t :: ts => t.lexicalErrors ++ Token.runLexicalErrors ts

end

/-!
## Reading
-/

namespace Declaration

def isImportantWord (t : Token) : Bool :=
  t.is Css.ident && t.asText?.any fun s => Text.sameFolded s "important"

/-- Take a trailing mark of importance off the values, with the blanks before
it. -/
def stripImportant (values : List Token) : List Token × Bool :=
  match values.reverse with
  | [] => (values, false)
  | last :: before =>
      if isImportantWord last then
        match before.dropWhile Token.isBlank with
        | [] => (values, false)
        | bang :: rest =>
            if Css.isDelim bang '!' then (Queue.trimEnd rest.reverse, true) else (values, false)
      else (values, false)

def componentErrors (c : Component) : List StructureError :=
  c.errors ++ c.value.lexicalErrors

def readValues (n : Nesting) (name : String) (l : Location) (input : List Token) :
    Parsed Declaration :=
  let run := readRun n Token.isEof input
  let stripped := stripImportant (Queue.trimEnd run.values)
  { value := { name, values := stripped.1, important := stripped.2, location := l }
    errors :=
      run.components.flatMap componentErrors ++
        (if stripped.1.isEmpty then [.emptyDeclaration name l] else [])
    rest := run.rest }

def unread (name : String) (l : Location) : Declaration :=
  { name, values := [], important := false, location := l }

def read (n : Nesting) (input : List Token) : Parsed Declaration :=
  match input with
  | [] => ⟨unread "" .unknown, [.exhausted "declaration"], []⟩
  | t :: ts =>
      let l := t.location
      if t.is Css.ident then
        match Queue.pollIf (Predicate.ofKind Css.colon) (Queue.skipBlank ts) with
        | (none, rest) => ⟨unread t.text l, [.missingColon t.text l], rest⟩
        | (some _, rest) => readValues n t.text l (Queue.skipBlank rest)
      else ⟨unread "" l, [.unexpectedToken "identifier" t.shown l], ts⟩

def valueSource (d : Declaration) : String := Token.runSource d.values

/-- The declaration as source text; the name is written as it is. -/
def source (d : Declaration) : String :=
  d.name ++ ":" ++ d.valueSource ++ (if d.important then " !important" else "")

end Declaration

end StyleTokens
