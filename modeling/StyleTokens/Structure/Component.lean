import StyleTokens.Options
import StyleTokens.Outcome
import StyleTokens.Queue
import StyleTokens.Structure.Error

/-!
# Component values

A component value is a single token, or a whole block or call with the values in
it.  Reading a run of values is one recursion on what is left: a bracket makes it
read a run inside, which ends at the closing bracket, and go on behind it.

A run that is not closed still ends: at the end of the text, which is left for
the caller, or with the last token.
-/

namespace StyleTokens

/-- How deep constructs may stand inside each other, and how deep they do. -/
structure Nesting where
  limit : Nat
  depth : Nat
  deriving DecidableEq, Repr

namespace Nesting

def ofOptions (o : Options) : Nesting := ⟨o.maxDepth, 0⟩

def isFull (n : Nesting) : Bool := n.limit ≤ n.depth

def deeper (n : Nesting) : Nesting := ⟨n.limit, n.depth + 1⟩

end Nesting

/-- What a token opens: a block with its brackets, or a call with its name. -/
inductive Construct where
  | block (opening closing : Kind)
  | call (name : String)

namespace Construct

def closing : Construct -> Kind
  | block _ closing => closing
  | call _ => Css.closeParen

def title : Construct -> String
  | block opening _ => opening.raw.getD opening.name ++ "-block"
  | call name => "function [" ++ name ++ "]"

def token (c : Construct) (values : List Token) (l : Location) : Token :=
  match c with
  | block opening closing => Block.toToken { opening, closing, values, location := l }
  | call name => Call.toToken { name, values, location := l }

def ends (c : Construct) : Predicate := fun t => t.isEof || t.is c.closing

end Construct

namespace Token

def opens? (t : Token) : Option Construct :=
  match Css.closingOf? t.kind with
  | some closing => some (.block t.kind closing)
  | none => if t.is Css.function then some (.call t.text) else none

end Token

/-!
## Skipping
-/

/-- Skip a construct without reading it, up to the bracket that balances it.  So
many constructs are open inside it. -/
def skipNested (inside : Nat) (ts : List Token) : List Token :=
  match ts with
  | [] => []
  | t :: ts =>
      if t.isEof then t :: ts
      else if t.opens?.isSome then skipNested (inside + 1) ts
      else if Css.isClosing t.kind then
        match inside with
        | 0 => ts
        | inside + 1 => skipNested inside ts
      else skipNested inside ts

theorem skipNested_suffix (inside : Nat) (ts : List Token) : skipNested inside ts <:+ ts := by
  fun_induction skipNested inside ts with
  | case1 => exact List.suffix_refl []
  | case2 _ t ts => exact List.suffix_refl (t :: ts)
  | case3 _ t ts _ _ ih => exact ih.trans (List.suffix_cons t ts)
  | case4 t ts => exact List.suffix_cons t ts
  | case5 t ts _ _ _ _ ih => exact ih.trans (List.suffix_cons t ts)
  | case6 _ t ts _ _ _ ih => exact ih.trans (List.suffix_cons t ts)

/-!
## Runs
-/

abbrev Component := Outcome StructureError Token

/-- Component values read from the front of a queue. -/
structure Run (input : List Token) where
  components : List Component
  rest : List Token
  rest_suffix : rest <:+ input

namespace Run

def values {input : List Token} (r : Run input) : List Token :=
  r.components.map Outcome.value

def errors {input : List Token} (r : Run input) : List StructureError :=
  r.components.flatMap Outcome.errors

def stopped (input : List Token) : Run input := ⟨[], input, List.suffix_refl input⟩

def behind {inner input : List Token} (c : Component) (h : inner <:+ input) (r : Run inner) :
    Run input :=
  ⟨c :: r.components, r.rest, r.rest_suffix.trans h⟩

end Run

structure Contents (input : List Token) where
  values : List Token
  errors : List StructureError
  rest : List Token
  rest_suffix : rest <:+ input

namespace Contents

def skipped (n : Nesting) (l : Location) (input : List Token) : Contents input :=
  ⟨[], [.depthLimit n.limit l], skipNested 0 input, skipNested_suffix 0 input⟩

def ofRun (c : Construct) (l : Location) {input : List Token} (run : Run input) :
    Contents input :=
  match h : run.rest with
  | [] => ⟨run.values, run.errors ++ [.unclosed c.title l], [], List.nil_suffix⟩
  | t :: rest =>
      if t.isEof then
        ⟨run.values, run.errors ++ [.unexpectedEof c.title l], t :: rest, h ▸ run.rest_suffix⟩
      else
        ⟨run.values, run.errors, rest, (List.suffix_cons t rest).trans (h ▸ run.rest_suffix)⟩

end Contents

/-- Read component values up to the first token that passes a test. -/
def readRun (n : Nesting) (stop : Predicate) (input : List Token) : Run input :=
  match input with
  | [] => .stopped []
  | t :: ts =>
      if stop t then .stopped (t :: ts)
      else
        match t.opens? with
        | none => (readRun n stop ts).behind (.success t) (List.suffix_cons t ts)
        | some c =>
            let inner :=
              if n.isFull then Contents.skipped n t.location ts
              else .ofRun c t.location (readRun n.deeper c.ends ts)
            (readRun n stop inner.rest).behind ⟨c.token inner.values t.location, inner.errors⟩
              (inner.rest_suffix.trans (List.suffix_cons t ts))
termination_by input.length
decreasing_by
  · exact Nat.lt_succ_self _
  · exact Nat.lt_succ_self _
  · exact Nat.lt_succ_of_le inner.rest_suffix.length_le

def readContents (n : Nesting) (c : Construct) (l : Location) (input : List Token) :
    Contents input :=
  if n.isFull then .skipped n l input else .ofRun c l (readRun n.deeper c.ends input)

/-!
## Single values
-/

/-- A value with its errors, and what follows it. -/
structure Parsed (α : Type) where
  value : α
  errors : List StructureError
  rest : List Token

namespace Parsed

def outcome (p : Parsed α) : Outcome StructureError α := ⟨p.value, p.errors⟩

end Parsed

def readComponent (n : Nesting) (t : Token) (ts : List Token) : Parsed Token :=
  match t.opens? with
  | none => ⟨t, [], ts⟩
  | some c =>
      let inner := readContents n c t.location ts
      ⟨c.token inner.values t.location, inner.errors, inner.rest⟩

/-!
## Equations of a run
-/

@[simp] theorem readRun_nil (n : Nesting) (stop : Predicate) :
    readRun n stop [] = .stopped [] := by
  rw [readRun]

theorem readRun_of_stop {n : Nesting} {stop : Predicate} {t : Token} (ts : List Token)
    (h : stop t = true) : readRun n stop (t :: ts) = .stopped (t :: ts) := by
  rw [readRun, if_pos h]

theorem readRun_of_opens_none {n : Nesting} {stop : Predicate} {t : Token} (ts : List Token)
    (h : stop t = false) (ho : t.opens? = none) :
    readRun n stop (t :: ts) =
      (readRun n stop ts).behind (.success t) (List.suffix_cons t ts) := by
  rw [readRun, if_neg (by simp [h])]
  split
  · rfl
  · rename_i c hc
    rw [ho] at hc
    cases hc

theorem readRun_of_opens {n : Nesting} {stop : Predicate} {t : Token} {c : Construct}
    (ts : List Token) (h : stop t = false) (ho : t.opens? = some c) :
    readRun n stop (t :: ts) =
      (readRun n stop (readContents n c t.location ts).rest).behind
        ⟨c.token (readContents n c t.location ts).values t.location,
          (readContents n c t.location ts).errors⟩
        ((readContents n c t.location ts).rest_suffix.trans (List.suffix_cons t ts)) := by
  rw [readRun, if_neg (by simp [h])]
  split
  · rename_i hc
    rw [ho] at hc
    cases hc
  · rename_i d hd
    rw [ho] at hd
    cases hd
    rfl

theorem readComponent_of_opens_none (n : Nesting) {t : Token} (ts : List Token)
    (ho : t.opens? = none) : readComponent n t ts = ⟨t, [], ts⟩ := by
  unfold readComponent
  rw [ho]

theorem readComponent_of_opens (n : Nesting) {t : Token} {c : Construct} (ts : List Token)
    (ho : t.opens? = some c) :
    readComponent n t ts =
      ⟨c.token (readContents n c t.location ts).values t.location,
        (readContents n c t.location ts).errors, (readContents n c t.location ts).rest⟩ := by
  unfold readComponent
  rw [ho]

theorem readRun_components_cons {n : Nesting} {stop : Predicate} {t : Token} (ts : List Token)
    (h : stop t = false) :
    (readRun n stop (t :: ts)).components =
      (readComponent n t ts).outcome ::
        (readRun n stop (readComponent n t ts).rest).components := by
  cases ho : t.opens? with
  | none =>
      rw [readRun_of_opens_none ts h ho, readComponent_of_opens_none n ts ho]
      rfl
  | some c =>
      rw [readRun_of_opens ts h ho, readComponent_of_opens n ts ho]
      rfl

theorem readRun_rest_cons {n : Nesting} {stop : Predicate} {t : Token} (ts : List Token)
    (h : stop t = false) :
    (readRun n stop (t :: ts)).rest = (readRun n stop (readComponent n t ts).rest).rest := by
  cases ho : t.opens? with
  | none =>
      rw [readRun_of_opens_none ts h ho, readComponent_of_opens_none n ts ho]
      rfl
  | some c =>
      rw [readRun_of_opens ts h ho, readComponent_of_opens n ts ho]
      rfl

theorem readComponent_rest_suffix (n : Nesting) (t : Token) (ts : List Token) :
    (readComponent n t ts).rest <:+ ts := by
  unfold readComponent
  split
  · exact List.suffix_refl ts
  · exact (readContents n _ t.location ts).rest_suffix

theorem readRun_rest_suffix_tail {n : Nesting} {stop : Predicate} {t : Token} (ts : List Token)
    (h : stop t = false) : (readRun n stop (t :: ts)).rest <:+ ts := by
  rw [readRun_rest_cons ts h]
  exact (readRun n stop _).rest_suffix.trans (readComponent_rest_suffix n t ts)

/-!
## Reading one value, block or call
-/

namespace Component

def read (n : Nesting) : List Token -> Parsed Token
  | [] => ⟨.bare .unknown, [.exhausted "component value"], []⟩
  | t :: ts => readComponent n t ts

end Component

namespace Block

def read (n : Nesting) (closing : Kind) : List Token -> Parsed Block
  | [] =>
      ⟨{ opening := .unknown, closing, values := [], location := .unknown },
        [.exhausted "simple block"], []⟩
  | t :: ts =>
      let inner := readContents n (.block t.kind closing) t.location ts
      ⟨{ opening := t.kind, closing, values := inner.values, location := t.location },
        inner.errors, inner.rest⟩

end Block

def shownOrNothing (ts : List Token) : String :=
  match ts with
  | [] => "nothing"
  | t :: _ => t.shown

namespace Call

def read (n : Nesting) (input : List Token) : Parsed Call :=
  let l := Queue.location input
  match Queue.pollIf (Predicate.ofKind Css.function) input with
  | (none, rest) =>
      ⟨{ name := "", values := [], location := l },
        [.unexpectedToken "function" (shownOrNothing rest) l], rest⟩
  | (some t, rest) =>
      let inner := readContents n (.call t.text) l rest
      ⟨{ name := t.text, values := inner.values, location := l }, inner.errors, inner.rest⟩

end Call

end StyleTokens
