import StyleTokens.Engine
import StyleTokens.Kind.Registry
import StyleTokens.Text.Quoted

/-!
# Dialects and their tokenizer

A dialect has an ordered list of scanners, readers that look at nothing but the
text at hand.  Its engine drives them over a text.  What one turn emits and
leaves of the text does not depend on where the text stands, so it is a pass over
the text alone.
-/

namespace StyleTokens

/-- A reader of one lexical class that looks at the text only.  Its tokens are placed
where it started. -/
structure Scanner where
  /-- The name of the scanner, unique in a dialect. -/
  id : String
  /-- Does the scanner read a text that starts like this? -/
  claims : List Char -> Bool
  /-- Read the start of a text. -/
  scan : Options -> (input : List Char) -> Scan input

namespace Scanner

def ofRead (id : String) (claims : List Char -> Bool)
    (read : List Char -> Token × List Char)
    (read_suffix : forall cs, (read cs).2 <:+ cs) : Scanner :=
  { id, claims, scan := fun _ input => ⟨[(read input).1], (read input).2, read_suffix input⟩ }

def reader (s : Scanner) : Reader :=
  { id := s.id
    claims := fun c => s.claims c.rest
    read := fun o _ c =>
      let found := s.scan o c.rest
      { found with tokens := found.tokens.map fun t => t.placed c.location } }

end Scanner

/-- Kinds, scanners in the order of their priority, and the kind for characters
that no scanner reads. -/
structure Dialect where
  name : String
  registry : Registry
  scanners : List Scanner
  fallback : Kind
  /-- Prepare a text before it is read. -/
  prepare : List Char -> List Char

namespace Dialect

def kind? (d : Dialect) (name : String) : Option Kind :=
  match d.registry.get? d.name name with
  | some k => some k
  | none => d.registry.get? Kind.core name

def summary (d : Dialect) : String :=
  "Dialect \x7b name: " ++ Text.quoted d.name ++ ", producers: [" ++
    ", ".intercalate (d.scanners.map fun s => Text.quoted s.id) ++
    "], fallback: " ++ d.fallback.path ++ " \x7d"

/-!
## Tokenizing
-/

def fallbackToken (d : Dialect) (c : Char) : Token :=
  let token := Token.of d.fallback (.char c)
  if d.fallback.faulty then token.withError (LexError.unknownCharacter c).message
  else token

/-- One pass over a text that starts with `c`: what is left is at most what
followed `c`. -/
def pass (d : Dialect) (o : Options) (c : Char) (cs : List Char) : Scan cs :=
  match d.scanners.find? fun s => s.claims (c :: cs) with
  | some s =>
      let found := s.scan o (c :: cs)
      if h : found.rest = c :: cs then
        ⟨found.tokens ++ [d.fallbackToken c], cs, List.suffix_refl cs⟩
      else
        ⟨found.tokens, found.rest, (List.suffix_cons_iff.mp found.rest_suffix).resolve_left h⟩
  | none => ⟨[d.fallbackToken c], cs, List.suffix_refl cs⟩

def engine (d : Dialect) : Engine :=
  { readers := d.scanners.map Scanner.reader
    fallback := d.fallback
    prepare := d.prepare }

def tokensFrom (d : Dialect) (o : Options) (l : Location) (input : List Char) : List Token :=
  d.engine.tokensFrom o ⟨[], input, l⟩

def tokenize (d : Dialect) (o : Options) (s : String) : List Token :=
  d.tokensFrom o .start (d.prepare s.toList)

theorem engine_fallbackToken (d : Dialect) (c : Char) (l : Location) :
    d.engine.fallbackToken c l = (d.fallbackToken c).placed l := by
  unfold Engine.fallbackToken fallbackToken
  show (if d.fallback.faulty then _ else _) = _
  split <;> rfl

theorem engine_claimant? (d : Dialect) (c : Cursor) :
    d.engine.claimant? c = (d.scanners.find? fun s => s.claims c.rest).map Scanner.reader :=
  List.find?_map

theorem readBy_reader (o : Options) (s : Scanner) (emitted : List Token) (cursor : Cursor) :
    Engine.readBy o s.reader ⟨emitted, cursor⟩ =
      ⟨((s.scan o cursor.rest).tokens.map fun t => t.placed cursor.location).reverse ++ emitted,
        cursor.moveTo (s.scan o cursor.rest).rest⟩ :=
  rfl

/-- A turn of the engine is a pass: it emits the tokens of the pass, placed where the
pass starts, behind all that was emitted before. -/
theorem engine_turn (d : Dialect) (o : Options) (emitted : List Token) (l : Location)
    (c : Char) (cs : List Char) :
    d.engine.turn o ⟨emitted, c :: cs, l⟩ =
      ⟨((d.pass o c cs).tokens.map fun t => t.placed l).reverse ++ emitted,
        (d.pass o c cs).rest, (l.step c).past (d.pass o c cs).taken⟩ := by
  have hover : forall emitted : List Token, d.engine.passOver ⟨emitted, c :: cs, l⟩ =
      ⟨(d.fallbackToken c).placed l :: emitted, cs, l.step c⟩ := by
    intro emitted
    rw [Engine.passOver_cons, engine_fallbackToken]
  have hnone : forall ts, (Scan.mk ts cs (List.suffix_refl cs)).taken = [] := by
    intro ts
    exact Scan.taken_of_append (List.nil_append cs)
  unfold Engine.turn pass
  rw [engine_claimant?]
  cases d.scanners.find? fun s => s.claims (c :: cs) with
  | none =>
      dsimp only [Option.map_none]
      rw [hover, hnone]
      rfl
  | some s =>
      dsimp only [Option.map_some]
      rw [readBy_reader]
      by_cases h : (s.scan o (c :: cs)).rest = c :: cs
      · have hstays : Cursor.moveTo ⟨c :: cs, l⟩ (s.scan o (c :: cs)).rest = ⟨c :: cs, l⟩ := by
          have hall : [] ++ (c :: cs) = Cursor.rest ⟨c :: cs, l⟩ := rfl
          rw [h, Cursor.moveTo_of_suffix hall, Location.past_nil]
        rw [dif_pos h, hstays, if_pos rfl, hover, hnone, List.map_append, List.reverse_append]
        rfl
      · rw [dif_neg h]
        rcases (List.suffix_cons_iff.mp (s.scan o (c :: cs)).rest_suffix).resolve_left h with
          ⟨front, hfront⟩
        have hmoves : Cursor.moveTo ⟨c :: cs, l⟩ (s.scan o (c :: cs)).rest =
            ⟨(s.scan o (c :: cs)).rest, (l.step c).past front⟩ := by
          have hall : (c :: front) ++ (s.scan o (c :: cs)).rest = Cursor.rest ⟨c :: cs, l⟩ :=
            congrArg (List.cons c) hfront
          rw [Cursor.moveTo_of_suffix hall, Location.past_cons]
        rw [hmoves, if_neg, Scan.taken_of_append hfront]
        rw [Location.past_offset, Location.step_offset]
        omega

theorem engine_run_append (d : Dialect) (o : Options) (s : Engine.State) (before : List Token) :
    d.engine.run o ⟨s.emitted ++ before, s.cursor⟩ =
      ⟨(d.engine.run o s).emitted ++ before, (d.engine.run o s).cursor⟩ := by
  induction s using Engine.run.induct d.engine o with
  | case1 s hend =>
      rcases s with ⟨emitted, rest, l⟩
      obtain rfl : rest = [] := hend
      rw [d.engine.run_of_eof o rfl, d.engine.run_of_eof o rfl]
  | case2 s hmore ih =>
      rcases s with ⟨emitted, _ | ⟨c, cs⟩, l⟩
      · exact absurd rfl hmore
      · rw [d.engine.run_turn o hmore, ← ih, d.engine.run_turn o (List.cons_ne_nil c cs),
          engine_turn, engine_turn, List.append_assoc]

@[simp] theorem tokensFrom_nil (d : Dialect) (o : Options) (l : Location) :
    d.tokensFrom o l [] = [Token.eof.placed l] := by
  rw [tokensFrom, Engine.tokensFrom, d.engine.run_of_eof o rfl]
  rfl

theorem tokensFrom_cons (d : Dialect) (o : Options) (l : Location) (c : Char) (cs : List Char) :
    d.tokensFrom o l (c :: cs) =
      (d.pass o c cs).tokens.map (fun t => t.placed l) ++
        d.tokensFrom o ((l.step c).past (d.pass o c cs).taken) (d.pass o c cs).rest := by
  have hrun := d.engine_run_append o
    ⟨[], (d.pass o c cs).rest, (l.step c).past (d.pass o c cs).taken⟩
    ((d.pass o c cs).tokens.map fun t => t.placed l).reverse
  rw [tokensFrom, Engine.tokensFrom, d.engine.run_turn o (List.cons_ne_nil c cs), engine_turn,
    List.append_nil]
  rw [List.nil_append] at hrun
  rw [hrun, tokensFrom, Engine.tokensFrom]
  simp only [List.reverse_cons, List.reverse_append, List.reverse_reverse, List.append_assoc]

theorem tokensFrom.induct (d : Dialect) (o : Options) (motive : Location -> List Char -> Prop)
    (case1 : forall l, motive l [])
    (case2 : forall l c cs,
      let found := d.pass o c cs
      motive ((l.step c).past found.taken) found.rest -> motive l (c :: cs))
    (l : Location) (input : List Char) : motive l input :=
  match input with
  | [] => case1 l
  | c :: cs => case2 l c cs (tokensFrom.induct d o motive case1 case2 _ _)
termination_by input.length
decreasing_by
  exact Nat.lt_succ_of_le (d.pass o c cs).length_rest_le

end Dialect

end StyleTokens
