import StyleTokens.Kind
import StyleTokens.Location
import StyleTokens.Number

/-!
# Tokens

A token has a kind, a payload, a location, and the lexical error that was found
in it, if any.  Blocks and calls that were read from a run of tokens are tokens
too, so a payload may hold tokens again.
-/

namespace StyleTokens

mutual

/-- A unit of a text with the place where it starts. -/
structure Token where
  kind : Kind
  payload : Payload
  location : Location
  /-- The message of the lexical error found in the token. -/
  error : Option String

/-- The decoded value of a token. -/
inductive Payload where
  /-- No value; the raw text of the kind stands in. -/
  | none
  | char (c : Char)
  | text (s : String)
  | number (n : Number)
  /-- A number with a unit, which is `%` for a percentage. -/
  | dimension (n : Number) (unit : String)
  | bool (b : Bool)
  /-- The token that a faulty one stands around. -/
  | inner (t : Token)
  | block (b : Block)
  | call (c : Call)

/-- A run of values between an opening and a closing bracket. -/
structure Block where
  opening : Kind
  closing : Kind
  values : List Token
  location : Location

/-- A function name with the run of its arguments. -/
structure Call where
  name : String
  values : List Token
  location : Location

end

/-!
## Source text
-/

mutual

def Token.source (t : Token) : String :=
  match t with
  | ⟨kind, payload, _, _⟩ => payload.source kind

def Payload.source (p : Payload) (k : Kind) : String :=
  match p with
  | .none => k.encode (k.raw.getD "")
  | .char c => k.encode (String.singleton c)
  | .text s => k.encode s
  | .number n => k.encode n.text
  | .dimension n unit => k.encode (n.text ++ unit)
  | .bool b => k.encode (if b then "true" else "false")
  | .inner t => t.source
  | .block b => b.source
  | .call c => c.source

def Block.source (b : Block) : String :=
  match b with
  | ⟨opening, closing, values, _⟩ =>
      opening.raw.getD "" ++ Token.runSource values ++ closing.raw.getD ""

def Call.source (c : Call) : String :=
  match c with
  | ⟨name, values, _⟩ => name ++ "(" ++ Token.runSource values ++ ")"

def Token.runSource (ts : List Token) : String :=
  match ts with
  | [] => ""
  | t :: ts => t.source ++ Token.runSource ts

end

theorem Token.source_eq (t : Token) : t.source = t.payload.source t.kind := by
  cases t
  rfl

theorem Block.source_eq (b : Block) :
    b.source = b.opening.raw.getD "" ++ Token.runSource b.values ++ b.closing.raw.getD "" := by
  cases b
  rfl

theorem Call.source_eq (c : Call) :
    c.source = c.name ++ "(" ++ Token.runSource c.values ++ ")" := by
  cases c
  rfl

@[simp] theorem Token.runSource_nil : Token.runSource [] = "" := rfl

@[simp] theorem Token.runSource_cons (t : Token) (ts : List Token) :
    Token.runSource (t :: ts) = t.source ++ Token.runSource ts := rfl

theorem Token.runSource_singleton (t : Token) : Token.runSource [t] = t.source := by
  rw [Token.runSource_cons, Token.runSource_nil, String.append_empty]

theorem Token.runSource_append (a b : List Token) :
    Token.runSource (a ++ b) = Token.runSource a ++ Token.runSource b := by
  induction a with
  | nil => simp
  | cons t a ih => simp [ih, String.append_assoc]

mutual

/-- The decoded text of a token, before its kind encodes it. -/
def Token.text (t : Token) : String :=
  match t with
  | ⟨kind, payload, _, _⟩ => payload.decoded kind

def Payload.decoded (p : Payload) (k : Kind) : String :=
  match p with
  | .none => k.raw.getD ""
  | .char c => String.singleton c
  | .text s => s
  | .number n => n.text
  | .dimension n unit => n.text ++ unit
  | .bool b => if b then "true" else "false"
  | .inner t => t.text
  | .block b => b.source
  | .call c => c.source

end

theorem Token.text_eq (t : Token) : t.text = t.payload.decoded t.kind := by
  cases t
  rfl

/-!
## Building
-/

mutual

def Token.placed (t : Token) (l : Location) : Token :=
  match t with
  | ⟨kind, payload, _, error⟩ => ⟨kind, payload.placed l, l, error⟩

def Payload.placed (p : Payload) (l : Location) : Payload :=
  match p with
  | .inner t => .inner (t.placed l)
  | p => p

end

@[simp] theorem Token.placed_location (t : Token) (l : Location) :
    (t.placed l).location = l := by
  cases t
  rfl

@[simp] theorem Token.placed_kind (t : Token) (l : Location) :
    (t.placed l).kind = t.kind := by
  cases t
  rfl

@[simp] theorem Token.placed_error (t : Token) (l : Location) :
    (t.placed l).error = t.error := by
  cases t
  rfl

namespace Token

def of (kind : Kind) (payload : Payload) : Token :=
  { kind, payload, location := .unknown, error := none }

def bare (kind : Kind) : Token := of kind .none

def ofText (kind : Kind) (cs : List Char) : Token := of kind (.text (String.ofList cs))

def eof : Token := bare .eof

instance : Inhabited Token := ⟨eof⟩

def withError (t : Token) (message : String) : Token :=
  { t with error := some message }

/-!
## Queries
-/

def is (t : Token) (k : Kind) : Bool := t.kind.same k

def isBlank (t : Token) : Bool := t.kind.blank

def isTerminator (t : Token) : Bool := t.kind.terminator

def isEof (t : Token) : Bool := t.is .eof

def isFaulty (t : Token) : Bool := t.kind.faulty || t.error.isSome

/-- Does the token carry meaning where blanks and line ends do not matter? -/
def isSignificant (t : Token) : Bool := !t.isBlank && !t.isTerminator

def asText? (t : Token) : Option String :=
  match t.payload with
  | .text s => some s
  | _ => none

def asNumber? (t : Token) : Option Number :=
  match t.payload with
  | .number n => some n
  | .dimension n _ => some n
  | _ => none

def unit? (t : Token) : Option String :=
  match t.payload with
  | .dimension _ unit => some unit
  | _ => none

def asBool? (t : Token) : Option Bool :=
  match t.payload with
  | .bool b => some b
  | _ => none

def asChar? (t : Token) : Option Char :=
  match t.payload with
  | .char c => some c
  | .text s =>
      match s.toList with
      | [c] => some c
      | _ => none
  | _ => none

def isChar (t : Token) (k : Kind) (c : Char) : Bool :=
  t.is k && t.asChar? == some c

def asBlock? (t : Token) : Option Block :=
  match t.payload with
  | .block b => some b
  | _ => none

def asCall? (t : Token) : Option Call :=
  match t.payload with
  | .call c => some c
  | _ => none

def values (t : Token) : List Token :=
  match t.payload with
  | .block b => b.values
  | .call c => c.values
  | _ => []

def shown (t : Token) : String :=
  t.kind.name ++ "(" ++ t.source ++ ")"

end Token

theorem not_isEof_of_is {t : Token} {k : Kind} (h : t.is k = true)
    (hk : k.same .eof = false) : t.isEof = false := by
  rw [Bool.eq_false_iff] at hk ⊢
  intro heof
  rcases Kind.same_iff.mp h with ⟨hdialect, hname⟩
  have hsame := Kind.same_iff.mp heof
  rw [hdialect, hname] at hsame
  exact hk (Kind.same_iff.mpr hsame)

/-!
## Equality
-/

mutual

def Token.same (a b : Token) : Bool :=
  match a, b with
  | ⟨kind, payload, location, error⟩, ⟨kind', payload', location', error'⟩ =>
      kind.same kind' && payload.same payload' && location == location' && error == error'
termination_by structural a

def Payload.same (a b : Payload) : Bool :=
  match a, b with
  | .none, .none => true
  | .char c, .char d => c == d
  | .text s, .text u => s == u
  | .number n, .number m => n.same m
  | .dimension n u, .dimension m v => n.same m && u == v
  | .bool x, .bool y => x == y
  | .inner t, .inner u => t.same u
  | .block c, .block d => c.same d
  | .call c, .call d => c.same d
  | _, _ => false
termination_by structural a

def Block.same (a b : Block) : Bool :=
  match a, b with
  | ⟨opening, closing, values, location⟩, ⟨opening', closing', values', location'⟩ =>
      opening.same opening' && closing.same closing' && Token.runSame values values' &&
        location == location'
termination_by structural a

def Call.same (a b : Call) : Bool :=
  match a, b with
  | ⟨name, values, location⟩, ⟨name', values', location'⟩ =>
      name == name' && Token.runSame values values' && location == location'
termination_by structural a

def Token.runSame (a b : List Token) : Bool :=
  match a, b with
  | [], [] => true
  | t :: a, u :: b => t.same u && Token.runSame a b
  | _, _ => false
termination_by structural a

end

end StyleTokens
