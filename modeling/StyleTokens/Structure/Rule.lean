import StyleTokens.Structure.Declaration

/-!
# Rules

A rule is a prelude with a block in braces, or a rule with a name behind an at
sign that may also end with a semicolon.  A rule without its end becomes an
unknown rule, and only the end of the input can cause that.
-/

namespace StyleTokens

/-- A prelude with a block. -/
structure QualifiedRule where
  prelude : List Token
  block : Block
  location : Location

/-- A named rule with a prelude and perhaps a block. -/
structure AtRule where
  name : String
  prelude : List Token
  block : Option Block
  location : Location

inductive Rule where
  | qualified (r : QualifiedRule)
  | named (r : AtRule)
  /-- A rule that does not reach its end. -/
  | unknown (l : Location)

/-!
## Preludes
-/

/-- What ended a prelude. -/
inductive PreludeEnd where
  | block (b : Block)
  | semicolon
  | eof
  | exhausted

/-- The values of a prelude and its end. -/
structure Prelude where
  values : List Token
  errors : List StructureError
  ending : PreludeEnd
  rest : List Token

namespace Token

def isBraceBlock (t : Token) : Bool :=
  t.asBlock?.any fun b => b.opening.same Css.openBrace

end Token

namespace Prelude

def ends (semicolonEnds : Bool) : Predicate := fun t =>
  t.isEof || (semicolonEnds && t.is Css.semicolon) || t.is Css.openBrace || t.isBraceBlock

def readEnd (n : Nesting) (semicolonEnds : Bool) (values : List Token)
    (errors : List StructureError) (input : List Token) : Prelude :=
  match input with
  | [] => ⟨values, errors, .exhausted, []⟩
  | t :: ts =>
      if t.isEof then ⟨values, errors, .eof, t :: ts⟩
      else if semicolonEnds && t.is Css.semicolon then ⟨values, errors, .semicolon, ts⟩
      else if t.is Css.openBrace then
        let found := Block.read n Css.closeBrace (t :: ts)
        ⟨values, errors ++ found.errors, .block found.value, found.rest⟩
      else
        match t.asBlock? with
        | some b => ⟨values, errors, .block b, ts⟩
        | none => ⟨values, errors, .exhausted, ts⟩

def read (n : Nesting) (semicolonEnds : Bool) (input : List Token) : Prelude :=
  let run := readRun n (ends semicolonEnds) input
  readEnd n semicolonEnds run.values run.errors run.rest

theorem readEnd_cons_rest_suffix (n : Nesting) (semicolonEnds : Bool) (values : List Token)
    (errors : List StructureError) {t : Token} (ts : List Token) (h : t.isEof = false) :
    (readEnd n semicolonEnds values errors (t :: ts)).rest <:+ ts := by
  simp only [readEnd, h]
  rw [if_neg (by simp)]
  split
  · exact List.suffix_refl ts
  · split
    · exact (readContents n _ t.location ts).rest_suffix
    · split
      · exact List.suffix_refl ts
      · exact List.suffix_refl ts

theorem readEnd_rest_suffix (n : Nesting) (semicolonEnds : Bool) (values : List Token)
    (errors : List StructureError) (input : List Token) :
    (readEnd n semicolonEnds values errors input).rest <:+ input := by
  cases input with
  | nil => exact List.suffix_refl []
  | cons t ts =>
      cases h : t.isEof with
      | true =>
          refine ⟨[], ?_⟩
          rw [List.nil_append, readEnd, if_pos h]
      | false =>
          exact (readEnd_cons_rest_suffix n semicolonEnds values errors ts h).trans
            (List.suffix_cons t ts)

theorem read_rest_suffix (n : Nesting) (semicolonEnds : Bool) (input : List Token) :
    (read n semicolonEnds input).rest <:+ input :=
  (readEnd_rest_suffix n semicolonEnds _ _ _).trans
    (readRun n (ends semicolonEnds) input).rest_suffix

theorem read_cons_rest_suffix (n : Nesting) (semicolonEnds : Bool) {t : Token} (ts : List Token)
    (h : t.isEof = false) : (read n semicolonEnds (t :: ts)).rest <:+ ts := by
  cases hs : ends semicolonEnds t with
  | true =>
      rw [read, readRun_of_stop ts hs]
      exact readEnd_cons_rest_suffix n semicolonEnds _ _ ts h
  | false =>
      exact (readEnd_rest_suffix n semicolonEnds _ _ _).trans (readRun_rest_suffix_tail ts hs)

end Prelude

/-!
## Reading
-/

namespace Rule

def unfinished (ending : PreludeEnd) (construct : String) (l : Location) : StructureError :=
  match ending with
  | .exhausted => .unclosed construct l
  | _ => .unexpectedEof construct l

def readQualified (n : Nesting) (input : List Token) : Parsed Rule :=
  let l := Queue.location input
  let found := Prelude.read n false input
  match found.ending with
  | .block b =>
      ⟨.qualified { prelude := Queue.trim found.values, block := b, location := l },
        found.errors, found.rest⟩
  | ending => ⟨.unknown l, found.errors ++ [unfinished ending "qualified-rule" l], found.rest⟩

def readNamed (n : Nesting) (name : String) (l : Location) (input : List Token) : Parsed Rule :=
  let found := Prelude.read n true input
  let rule (block : Option Block) : Rule :=
    .named { name, prelude := Queue.trim found.values, block, location := l }
  match found.ending with
  | .block b => ⟨rule (some b), found.errors, found.rest⟩
  | .semicolon => ⟨rule none, found.errors, found.rest⟩
  | ending =>
      ⟨.unknown l, found.errors ++ [unfinished ending ("at-rule [" ++ name ++ "]") l], found.rest⟩

def readAt (n : Nesting) (input : List Token) : Parsed Rule :=
  let l := Queue.location input
  match Queue.pollIf (Predicate.ofKind Css.atKeyword) input with
  | (none, rest) => ⟨.unknown l, [.unexpectedToken "at-keyword" (shownOrNothing rest) l], rest⟩
  | (some t, rest) => readNamed n t.text l rest

def read (n : Nesting) (t : Token) (ts : List Token) : Parsed Rule :=
  if t.is Css.atKeyword then readAt n (t :: ts) else readQualified n (t :: ts)

theorem readQualified_rest (n : Nesting) (input : List Token) :
    (readQualified n input).rest = (Prelude.read n false input).rest := by
  simp only [readQualified]
  split <;> rfl

theorem readNamed_rest (n : Nesting) (name : String) (l : Location) (input : List Token) :
    (readNamed n name l input).rest = (Prelude.read n true input).rest := by
  simp only [readNamed]
  split <;> rfl

theorem read_rest_suffix (n : Nesting) {t : Token} (ts : List Token) (h : t.isEof = false) :
    (read n t ts).rest <:+ ts := by
  unfold read
  split
  · rename_i hat
    have hpoll : Queue.pollIf (Predicate.ofKind Css.atKeyword) (t :: ts) = (some t, ts) := by
      rw [Queue.pollIf]
      exact if_pos hat
    simp only [readAt, hpoll]
    rw [readNamed_rest]
    exact Prelude.read_rest_suffix n true ts
  · rw [readQualified_rest]
    exact Prelude.read_cons_rest_suffix n false ts h

def isSkipped (t : Token) : Bool :=
  t.isBlank || t.isTerminator || t.is Css.cdo || t.is Css.cdc

/-- Read rules up to the end of the text. -/
def readAll (n : Nesting) (input : List Token) : Parsed (List Rule) :=
  match input with
  | [] => ⟨[], [], []⟩
  | t :: ts =>
      if t.isEof then ⟨[], [], t :: ts⟩
      else if isSkipped t then readAll n ts
      else
        let first := read n t ts
        let others := readAll n first.rest
        ⟨first.value :: others.value, first.errors ++ others.errors, others.rest⟩
termination_by input.length
decreasing_by
  · exact Nat.lt_succ_self _
  · exact Nat.lt_succ_of_le (read_rest_suffix n ts (by simpa using ‹¬t.isEof = true›)).length_le

/-!
## Queries and text
-/

def location : Rule -> Location
  | qualified r => r.location
  | named r => r.location
  | unknown l => l

def isUnknown : Rule -> Bool
  | unknown _ => true
  | _ => false

def asQualified? : Rule -> Option QualifiedRule
  | qualified r => some r
  | _ => none

def asNamed? : Rule -> Option AtRule
  | named r => some r
  | _ => none

/-- The rule as source text.  An unknown rule has none. -/
def source : Rule -> String
  | qualified r => Token.runSource r.prelude ++ r.block.source
  | named r =>
      let prelude := Token.runSource r.prelude
      "@" ++ r.name ++ (if prelude = "" then "" else " ") ++ prelude ++
        (match r.block with
          | some b => b.source
          | none => ";")
  | unknown _ => ""

end Rule

end StyleTokens
