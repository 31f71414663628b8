import StyleTokens.Structure.Rule

/-!
# Style blocks

Declarations and nested rules.  A name starts a declaration, an at sign or an
ampersand starts a rule; anything else is reported and skipped.  Declarations and
skipped tokens end at the next semicolon, so what is wrong with one of them does
not touch those behind it.
-/

namespace StyleTokens

/-- The declarations and the rules of a block, each in order. -/
structure StyleBlock where
  declarations : List Declaration
  rules : List Rule

namespace StyleBlock

def empty : StyleBlock := ⟨[], []⟩

def withDeclaration (d : Declaration) (b : StyleBlock) : StyleBlock :=
  { b with declarations := d :: b.declarations }

def withRule (r : Rule) (b : StyleBlock) : StyleBlock :=
  { b with rules := r :: b.rules }

def isEmpty (b : StyleBlock) : Bool := b.declarations.isEmpty && b.rules.isEmpty

/-- The last declaration of a name, whatever the case of its letters. -/
def declaration? (b : StyleBlock) (name : String) : Option Declaration :=
  b.declarations.reverse.find? fun d => Text.sameFolded d.name name

/-!
## Reading
-/

def endsItem : Predicate := fun t => t.is Css.semicolon || t.isEof

def afterItem (ts : List Token) : List Token :=
  Queue.dropIf (Predicate.ofKind Css.semicolon) ts

def isSkipped (t : Token) : Bool :=
  t.isBlank || t.isTerminator || t.is Css.semicolon

/-- What a block starts with: a declaration, a rule, or tokens that belong to
neither. -/
inductive Item where
  | declaration (d : Declaration)
  | rule (r : Rule)
  | nothing

def Item.addTo (i : Item) (b : StyleBlock) : StyleBlock :=
  match i with
  | declaration d => b.withDeclaration d
  | rule r => b.withRule r
  | nothing => b

/-- Read a declaration up to its semicolon.  It counts only without errors. -/
def readDeclaration (n : Nesting) (input : List Token) : Parsed Item :=
  let run := readRun n endsItem input
  let found := Declaration.read n run.values
  { value := if found.errors.isEmpty then .declaration found.value else .nothing
    errors := run.errors ++ found.errors
    rest := afterItem run.rest }

/-- Report a token that starts nothing, and skip up to the next semicolon. -/
def skipIllegal (n : Nesting) (t : Token) (ts : List Token) : Parsed Item :=
  let run := readRun n endsItem (t :: ts)
  { value := .nothing
    errors :=
      [.illegalToken t.shown t.location] ++ run.errors ++ Token.runLexicalErrors run.values
    rest := afterItem run.rest }

def readRule (n : Nesting) (t : Token) (ts : List Token) : Parsed Item :=
  let found := Rule.read n t ts
  ⟨.rule found.value, found.errors, found.rest⟩

def readItem (n : Nesting) (t : Token) (ts : List Token) : Parsed Item :=
  if t.is Css.atKeyword then readRule n t ts
  else if t.is Css.ident then readDeclaration n (t :: ts)
  else if Css.isDelim t '&' then readRule n t ts
  else skipIllegal n t ts

theorem afterItem_readRun_suffix (n : Nesting) {t : Token} (ts : List Token)
    (h : isSkipped t = false) (he : t.isEof = false) :
    afterItem (readRun n endsItem (t :: ts)).rest <:+ ts := by
  have hstop : endsItem t = false := by
    simp only [isSkipped, Bool.or_eq_false_iff] at h
    simp only [endsItem, h.2, he, Bool.or_self]
  exact (Queue.dropIf_suffix _ _).trans (readRun_rest_suffix_tail ts hstop)

theorem readItem_rest_suffix (n : Nesting) {t : Token} (ts : List Token)
    (h : isSkipped t = false) (he : t.isEof = false) : (readItem n t ts).rest <:+ ts := by
  unfold readItem
  split
  · exact Rule.read_rest_suffix n ts he
  · split
    · exact afterItem_readRun_suffix n ts h he
    · split
      · exact Rule.read_rest_suffix n ts he
      · exact afterItem_readRun_suffix n ts h he

/-- Read declarations and rules up to the end of the text. -/
def read (n : Nesting) (input : List Token) : Parsed StyleBlock :=
  match input with
  | [] => ⟨empty, [], []⟩
  | t :: ts =>
      if t.isEof then ⟨empty, [], t :: ts⟩
      else if isSkipped t then read n ts
      else
        let first := readItem n t ts
        let others := read n first.rest
        ⟨first.value.addTo others.value, first.errors ++ others.errors, others.rest⟩
termination_by input.length
decreasing_by
  · exact Nat.lt_succ_self _
  · exact Nat.lt_succ_of_le
      (readItem_rest_suffix n ts (by simpa using ‹¬isSkipped t = true›)
        (by simpa using ‹¬t.isEof = true›)).length_le

end StyleBlock

namespace QualifiedRule

def styleBlock (r : QualifiedRule) (o : Options) : Outcome StructureError StyleBlock :=
  (StyleBlock.read (.ofOptions o) r.block.values).outcome

end QualifiedRule

namespace AtRule

def styleBlock? (r : AtRule) : Option (Outcome StructureError StyleBlock) :=
  r.block.map fun b => (StyleBlock.read (.ofOptions {}) b.values).outcome

end AtRule

end StyleTokens
