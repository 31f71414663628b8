import StyleTokens.Cursor
import StyleTokens.LexError
import StyleTokens.Options
import StyleTokens.Token

/-!
# Engines

An engine drives readers over a text.  The first reader that claims the cursor
reads on from there and emits tokens; a character that nobody reads becomes a
token of the fallback kind.  Readers see where the cursor stands and what was
emitted before.  All that is asked of them is not to go back: every turn moves
over at least one character, whatever the readers do, so an engine stops on every
text.
-/

namespace StyleTokens

/-- What was read from a text: the tokens and the rest. -/
structure Scan (input : List Char) where
  tokens : List Token
  rest : List Char
  rest_suffix : rest <:+ input

namespace Scan

def taken {input : List Char} (s : Scan input) : List Char :=
  input.take (input.length - s.rest.length)

theorem taken_append_rest {input : List Char} (s : Scan input) :
    s.taken ++ s.rest = input := by
  rcases s with ⟨tokens, rest, read, rfl⟩
  simp [taken]

theorem taken_of_append {input front : List Char} {s : Scan input} (h : front ++ s.rest = input) :
    s.taken = front :=
  List.append_cancel_right (s.taken_append_rest.trans h.symm)

theorem length_rest_le {input : List Char} (s : Scan input) :
    s.rest.length ≤ input.length :=
  s.rest_suffix.length_le

end Scan

/-- A reader of one lexical class. -/
structure Reader where
  /-- The name of the reader, unique in an engine. -/
  id : String
  /-- Does the reader start at this cursor? -/
  claims : Cursor -> Bool
  /-- Read on from a cursor, knowing the tokens emitted before, the last one first. -/
  read : Options -> List Token -> (c : Cursor) -> Scan c.rest

/-- Readers in the order of their priority, and the kind for characters that nobody
reads. -/
structure Engine where
  readers : List Reader
  fallback : Kind
  /-- Prepare a text before it is read. -/
  prepare : List Char -> List Char

namespace Engine

/-- Where an engine stands. -/
structure State where
  /-- The tokens emitted so far, the last one first. -/
  emitted : List Token
  cursor : Cursor

def claimant? (e : Engine) (c : Cursor) : Option Reader :=
  e.readers.find? fun r => r.claims c

def fallbackToken (e : Engine) (c : Char) (l : Location) : Token :=
  let token := (Token.of e.fallback (.char c)).placed l
  if e.fallback.faulty then token.withError (LexError.unknownCharacter c).message
  else token

/-- Emit a token for the character under the cursor, and move over it. -/
def passOver (e : Engine) (s : State) : State :=
  match s.cursor.peek? with
  | none => s
  | some c => ⟨e.fallbackToken c s.cursor.location :: s.emitted, s.cursor.skip 1⟩

def readBy (o : Options) (r : Reader) (s : State) : State :=
  let found := r.read o s.emitted s.cursor
  ⟨found.tokens.reverse ++ s.emitted, s.cursor.moveTo found.rest⟩

/-- One turn.  A claiming reader that does not move keeps what it emitted, and the
character is passed over behind it. -/
def turn (e : Engine) (o : Options) (s : State) : State :=
  match e.claimant? s.cursor with
  | none => e.passOver s
  | some r =>
      let next := readBy o r s
      if next.cursor.location.offset = s.cursor.location.offset then e.passOver next
      else next

theorem passOver_cons (e : Engine) (emitted : List Token) (c : Char) (cs : List Char)
    (l : Location) :
    e.passOver ⟨emitted, c :: cs, l⟩ = ⟨e.fallbackToken c l :: emitted, cs, l.step c⟩ :=
  rfl

@[simp] theorem readBy_rest (o : Options) (r : Reader) (s : State) :
    (readBy o r s).cursor.rest = (r.read o s.emitted s.cursor).rest :=
  Cursor.moveTo_rest (r.read o s.emitted s.cursor).rest_suffix

theorem readBy_cursor_of_offset {o : Options} {r : Reader} {s : State}
    (h : (readBy o r s).cursor.location.offset = s.cursor.location.offset) :
    (readBy o r s).cursor = s.cursor :=
  Cursor.moveTo_of_offset h

theorem length_passOver_lt (e : Engine) {s : State} (h : s.cursor.rest ≠ []) :
    (e.passOver s).cursor.rest.length < s.cursor.rest.length := by
  rcases s with ⟨emitted, _ | ⟨c, cs⟩, l⟩
  · exact absurd rfl h
  · rw [passOver_cons]
    exact Nat.lt_succ_self cs.length

theorem length_turn_lt (e : Engine) (o : Options) {s : State} (h : s.cursor.rest ≠ []) :
    (e.turn o s).cursor.rest.length < s.cursor.rest.length := by
  unfold turn
  split
  · exact e.length_passOver_lt h
  · rename_i r _
    dsimp only
    split
    · rename_i hstays
      have hcursor := readBy_cursor_of_offset hstays
      rw [← hcursor] at h ⊢
      exact e.length_passOver_lt h
    · rename_i hmoves
      exact Cursor.length_moveTo_lt hmoves

def run (e : Engine) (o : Options) (s : State) : State :=
  if s.cursor.rest = [] then s else e.run o (e.turn o s)
termination_by s.cursor.rest.length
decreasing_by
  exact e.length_turn_lt o ‹_›

def tokensFrom (e : Engine) (o : Options) (s : State) : List Token :=
  let last := e.run o s
  (Token.eof.placed last.cursor.location :: last.emitted).reverse

def start (e : Engine) (text : String) : State :=
  ⟨[], .ofList (e.prepare text.toList)⟩

def tokenize (e : Engine) (o : Options) (text : String) : List Token :=
  e.tokensFrom o (e.start text)

theorem run_of_eof (e : Engine) (o : Options) {s : State} (h : s.cursor.rest = []) :
    e.run o s = s := by
  rw [run, if_pos h]

theorem run_turn (e : Engine) (o : Options) {s : State} (h : s.cursor.rest ≠ []) :
    e.run o s = e.run o (e.turn o s) := by
  rw [run, if_neg h]

end Engine

end StyleTokens
