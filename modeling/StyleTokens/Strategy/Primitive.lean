import StyleTokens.Json5.Kinds
import StyleTokens.Strategy
import StyleTokens.Text.Ascii

/-!
# Primitive strategies

Strings, numbers and booleans from tokens of one kind.  All three share the loop
over the run: delimiters around it, gates that end it early, and a manner of
treating tokens of other kinds.
-/

namespace StyleTokens

/-- What happens to a token of another kind. -/
inductive UnknownManner where
  /-- It ends the reading with an error. -/
  | throw
  /-- It is skipped. -/
  | ignore
  /-- Its text is used. -/
  | convert
  deriving DecidableEq, Repr

/-- Which tokens belong to a value, and where it ends. -/
structure Scope where
  /-- The kind of the tokens that make up the value. -/
  kind : Kind
  /-- The token before and after the value. -/
  delimiter : Option Predicate
  /-- Tokens that end the run; inside delimiters that is an error. -/
  gates : List Predicate
  /-- Does the end of a line end the run? -/
  stopsAtLines : Bool
  /-- The treatment of other tokens. -/
  unknown : UnknownManner

namespace Scope

def ofKind (kind : Kind) : Scope :=
  { kind, delimiter := none, gates := [], stopsAtLines := true, unknown := .throw }

def isDelimited (s : Scope) : Bool := s.delimiter.isSome

def isGate (s : Scope) (t : Token) : Bool :=
  (s.stopsAtLines && t.isTerminator) || s.gates.any fun gate => gate t

def isDelimiter (s : Scope) (t : Token) : Bool := s.delimiter.any fun p => p t

def accepts (s : Scope) (t : Token) : Bool :=
  match s.delimiter with
  | some p => p t
  | none => t.is s.kind

end Scope

/-- What a primitive value is made of: a state that grows token by token. -/
structure Primitive (α σ : Type) where
  id : String
  start : σ
  /-- Use a token of the right kind. -/
  take : Args -> σ -> Token -> Except StrategyError σ
  /-- Use the text of another token. -/
  convert : σ -> Token -> σ
  finish : σ -> Outcome StrategyError α
  emit : α -> Kind -> Except StrategyError (List Token)

namespace Primitive

/-!
## The loop over the tokens
-/

/-- Use the tokens of a run until it ends.  Inside delimiters a run has to reach
the closing one. -/
def scan (p : Primitive α σ) (s : Scope) (args : Args) (state : σ) (input : List Token) :
    Reading σ input :=
  match input with
  | [] => .stay [] state (if s.isDelimited then [.unclosedStream] else [])
  | t :: ts =>
      let stop (state : σ) (errors : List StrategyError) : Reading σ (t :: ts) :=
        ⟨state, errors, ts, List.suffix_cons t ts⟩
      let next (state : σ) : Reading σ (t :: ts) :=
        (p.scan s args state ts).ofSuffix (List.suffix_cons t ts)
      if s.isGate t then
        stop state (if s.isDelimited then [.unclosed p.id t.location] else [])
      else if s.isDelimiter t then stop state []
      else if t.isTerminator && ts.isEmpty && s.isDelimited then
        stop state [.unclosed p.id t.location]
      else if t.is s.kind then
        match p.take args state t with
        | .ok state => next state
        | .error e => stop state [e]
      else if (t.isBlank || t.isTerminator) && s.unknown ≠ .convert then next state
      else
        match s.unknown with
        | .throw => stop state [.unknownToken p.id t.shown t.location]
        | .ignore =>
            if ts.isEmpty && s.isDelimited then stop state [.unclosed p.id t.location]
            else next state
        | .convert => next (p.convert state t)

def process (p : Primitive α σ) (s : Scope) (args : Args) (input : List Token) :
    Reading σ input :=
  match s.delimiter, input with
  | none, input => p.scan s args p.start input
  | some _, [] => .stay [] p.start [.noTokens]
  | some d, t :: ts =>
      if d t then (p.scan s args p.start ts).ofSuffix (List.suffix_cons t ts)
      else .stay (t :: ts) p.start [.unknownToken p.id t.shown t.location]

def strategy (p : Primitive α σ) (s : Scope) (provider : Option (α -> List Token)) :
    Strategy α :=
  { id := p.id
    accepts := fun _ t => s.accepts t
    read := fun args _ input =>
      let found := p.process s args input
      let built := p.finish found.value
      ⟨built.value, found.errors ++ built.errors, found.rest, found.rest_suffix⟩
    emit := fun a =>
      match provider with
      | some f => .ok (f a)
      | none => p.emit a s.kind }

theorem isSteady_strategy (p : Primitive α σ) (s : Scope) (provider : Option (α -> List Token)) :
    (p.strategy s provider).IsSteady :=
  fun _ _ _ => rfl

/-!
## One value
-/

/-- Store a value unless there is one already: whether it was stored, and what is
stored then. -/
def accept (stored : Option α) (a : α) : Bool × Option α :=
  match stored with
  | none => (true, some a)
  | some b => (false, some b)

def single (kind : String) (substitute : α) (stored : Option α) : Outcome StrategyError α :=
  match stored with
  | some a => .success a
  | none => .error substitute (.missing kind)

def takeSingle (kind : String) (value : Token -> Option α) (stored : Option α) (t : Token) :
    Except StrategyError (Option α) :=
  match value t with
  | none => .error (.invalid kind t.text t.location)
  | some a =>
      if (accept stored a).1 then .ok (accept stored a).2
      else .error (.multiple kind t.location)

/-!
## Strings, numbers and booleans
-/

def string : Primitive String String :=
  { id := "String"
    start := ""
    take := fun args s t => .ok (s ++ if args.quoteStrings then t.source else t.text)
    convert := fun s t => s ++ t.source
    finish := .success
    emit := fun s kind => .ok [.of kind (.text s)] }

def numberOf? (t : Token) : Option Number :=
  match t.asNumber? with
  | some n => some n
  | none => Number.read? (Text.trimList t.text.toList) true

/-- One number.  Infinities and not-a-number can be written in data documents
only. -/
def number : Primitive Number (Option Number) :=
  { id := "Number"
    start := none
    take := fun _ => takeSingle "number" numberOf?
    convert := fun stored t =>
      match Numeral.binary64? (Text.trimList t.text.toList) with
      | some x => (accept stored (.float x)).2
      | none => stored
    finish := single "number" (.integer 0)
    emit := fun n kind =>
      if !n.toBinary64.isFinite && kind.dialect ≠ Json5.dialectName then
        .error (.encodingUnsupported "Number" n.text kind.name)
      else .ok [.of kind (.number n)] }

def boolOfText? (s : String) : Option Bool :=
  if Text.sameFolded (Text.trim s) "true" then some true
  else if Text.sameFolded (Text.trim s) "false" then some false
  else none

def boolOf? (t : Token) : Option Bool :=
  match t.asBool? with
  | some b => some b
  | none => boolOfText? t.text

def boolean : Primitive Bool (Option Bool) :=
  { id := "Boolean"
    start := none
    take := fun _ => takeSingle "boolean" boolOf?
    convert := fun stored t =>
      match boolOfText? t.text with
      | some b => (accept stored b).2
      | none => stored
    finish := single "boolean" false
    emit := fun b kind => .ok [.of kind (.bool b)] }

end Primitive

end StyleTokens
