import StyleTokens.Strategy.Listing

/-!
# Pairs

Two values one behind the other.  A pair is divided at a delimiter, or where the
second value can start.  In a keyed pair the first value chooses the strategy for
the second one.
-/

namespace StyleTokens

/-- The token between two values, and how it is written. -/
structure Delimiter where
  test : Predicate
  tokens : List Token := []

/-- The two halves of a pair as far as they are read. -/
structure Halves (ε α β : Type) where
  first? : Option (Outcome ε α) := none
  second? : Option (Outcome ε β) := none

namespace Halves

def isError (h : Halves ε α β) : Bool :=
  match h.first?, h.second? with
  | some a, some b => a.isError || b.isError
  | _, _ => true

def build (incomplete : ε) (h : Halves ε α β) : Outcome ε (Option (α × β)) :=
  match h.first?, h.second? with
  | some a, some b => a.combine b fun x y => some (x, y)
  | _, _ => .error none incomplete

end Halves

/-- A run divided at a delimiter. -/
structure Division (input : List Token) where
  /-- The tokens before the delimiter. -/
  front : List Token
  /-- Tokens between the front and the delimiter that belong to no value. -/
  strays : List Token
  /-- The tokens behind the delimiter. -/
  rest : List Token
  rest_suffix : rest <:+ input

namespace Queue

def isDivider (d : Predicate) (t : Token) : Bool := d t || t.isEof

/-- Divide a run at the first delimiter.  Blanks are skipped before the delimiter
is looked for again, so one that is a blank itself is missed. -/
def divide (d : Predicate) (input : List Token) : Division input :=
  let tail := skipBlank (onward d input)
  { front := before d input
    strays := (before (isDivider d) tail).filter Token.isSignificant
    rest := dropIf d (onward (isDivider d) tail)
    rest_suffix :=
      (dropIf_suffix _ _).trans
        ((onward_suffix _ _).trans ((skipBlank_suffix _).trans (onward_suffix _ _))) }

/-- The length of the front of a run whose next token passes a test.  The front
has a token at least. -/
def boundary? (p : Predicate) (ts : List Token) : Option Nat :=
  (ts.tail.findIdx? p).map (· + 1)

end Queue

namespace Strategy

def readSecond (second : Strategy β) (args : Args) (failed : Bool)
    (first : Outcome StrategyError α) (errors : List StrategyError) (rest : List Token) :
    Reading (Halves StrategyError α β) rest :=
  let halves : Halves StrategyError α β := { first? := some first }
  let found := second.read args (failed || halves.isError) rest
  ⟨{ halves with second? := some found.outcome }, errors, found.rest, found.rest_suffix⟩

def collect {input : List Token} (r : Reading (Halves StrategyError α β) input) :
    Reading (Option (α × β)) input :=
  let built := r.value.build .incompletePair
  ⟨built.value, r.errors ++ built.errors, r.rest, r.rest_suffix⟩

/-!
## Pairs of fixed strategies
-/

def delimitedHalves (first : Strategy α) (second : Strategy β) (d : Predicate) (args : Args)
    (failed : Bool) (input : List Token) : Reading (Halves StrategyError α β) input :=
  if input.any d then
    let parts := Queue.divide d input
    (second.readSecond args failed (first.read args failed parts.front).outcome
      (unknownTokens parts.strays (Queue.location input)) parts.rest).ofSuffix parts.rest_suffix
  else .stay input {} [.splitNotFound]

def adjacentHalves (first : Strategy α) (second : Strategy β) (args : Args) (failed : Bool)
    (input : List Token) : Reading (Halves StrategyError α β) input :=
  match Queue.boundary? (second.accepts args) input with
  | some n =>
      (second.readSecond args failed (first.read args failed (input.take n)).outcome []
        (Queue.skipBlank (input.drop n))).ofSuffix
          ((Queue.skipBlank_suffix _).trans (List.drop_suffix n input))
  | none => .stay input {} [.splitNotFound]

def halves (first : Strategy α) (second : Strategy β) (delimiter : Option Delimiter)
    (args : Args) (failed : Bool) (input : List Token) :
    Reading (Halves StrategyError α β) input :=
  if input.isEmpty then .stay input {} [.noTokens]
  else
    match delimiter with
    | some d => first.delimitedHalves second d.test args failed input
    | none => first.adjacentHalves second args failed input

def emitPair (first : Strategy α) (second : Strategy β) (between : List Token) (a : α) (b : β) :
    Except StrategyError (List Token) := do
  let front ← first.emit a
  let back ← second.emit b
  return front ++ between ++ back

def pair (first : Strategy α) (second : Strategy β) (delimiter : Option Delimiter) :
    Strategy (Option (α × β)) :=
  { id := "Pair"
    accepts := first.accepts
    read := fun args failed input => collect (first.halves second delimiter args failed input)
    emit := fun value =>
      match value with
      | none => .ok []
      | some (a, b) => first.emitPair second ((delimiter.map Delimiter.tokens).getD []) a b }

/-!
## Keyed pairs
-/

def noStrategy (shown : α -> String) (key : α) : StrategyError := .noValueStrategy (shown key)

/-- The key of a pair and its value, which is read as the key demands. -/
def keyedHalves (key : Strategy α) (select : α -> Option (Strategy β)) (shown : α -> String)
    (d : Predicate) (args : Args) (failed : Bool) (input : List Token) :
    Reading (Halves StrategyError α β) input :=
  if input.isEmpty then .stay input {} [.noTokens]
  else if input.any d then
    let parts := Queue.divide d input
    let found := (key.read args failed parts.front).outcome
    match select found.value with
    | some value =>
        (value.readSecond args failed found
          (unknownTokens parts.strays (Queue.location input)) parts.rest).ofSuffix
            parts.rest_suffix
    | none =>
        ⟨{ first? := some found }, [noStrategy shown found.value], parts.rest, parts.rest_suffix⟩
  else .stay input {} [.splitNotFound]

/-- A pair of a key and a value that the key has a strategy for. -/
def keyed (key : Strategy α) (select : α -> Option (Strategy β)) (shown : α -> String)
    (delimiter : Delimiter) : Strategy (Option (α × β)) :=
  { id := "Keyed"
    accepts := key.accepts
    read := fun args failed input =>
      collect (key.keyedHalves select shown delimiter.test args failed input)
    emit := fun value =>
      match value with
      | none => .ok []
      | some (a, b) =>
          match select a with
          | some second => key.emitPair second delimiter.tokens a b
          | none => .error (noStrategy shown a) }

/-!
## Steadiness
-/

theorem readSecond_failed {second : Strategy β} (h : second.IsSteady) (args : Args)
    (failed : Bool) (first : Outcome StrategyError α) (errors : List StrategyError)
    (rest : List Token) :
    second.readSecond args failed first errors rest =
      second.readSecond args false first errors rest := by
  simp only [readSecond]
  rw [h args _ rest, h args (false || _) rest]

theorem isSteady_pair {first : Strategy α} {second : Strategy β} (hfirst : first.IsSteady)
    (hsecond : second.IsSteady) (delimiter : Option Delimiter) :
    (first.pair second delimiter).IsSteady := by
  intro args failed input
  simp only [pair, halves, delimitedHalves, adjacentHalves, hfirst args failed,
    readSecond_failed hsecond args failed]

theorem isSteady_keyed {key : Strategy α} {select : α -> Option (Strategy β)}
    (hkey : key.IsSteady) (hselect : forall a second, select a = some second -> second.IsSteady)
    (shown : α -> String) (delimiter : Delimiter) :
    (key.keyed select shown delimiter).IsSteady := by
  intro args failed input
  simp only [keyed, keyedHalves, hkey args failed]
  split
  · rfl
  · split
    · split
      · next second heq =>
          rw [readSecond_failed (hselect _ second heq)]
      · rfl
    · rfl

end Strategy

end StyleTokens
