import StyleTokens.Queue.Window
import StyleTokens.Structure.StyleBlock

/-!
# Programs on queues

Steps that take tokens off a queue, and the three ways to run further steps on a
queue of their own: a split, which reaches its parent only when it is committed,
an attempt, which is committed if its result is valid, and a slice, which sees no
further than a stop token.
-/

namespace StyleTokens
namespace Queue

inductive Reader where
  | component
  | block (closing : Kind)
  | call
  | declaration
  | qualifiedRule
  | namedRule
  | rules
  | styleBlock

inductive Node where
  | component (t : Token)
  | block (b : Block)
  | call (c : Call)
  | declaration (d : Declaration)
  | rule (r : Rule)
  | rules (rs : List Rule)
  | styleBlock (b : StyleBlock)

namespace Reader

def node (wrap : α -> Node) (p : Parsed α) : Parsed Node := ⟨wrap p.value, p.errors, p.rest⟩

def read (n : Nesting) (r : Reader) (ts : List Token) : Parsed Node :=
  match r with
  | component => node .component (Component.read n ts)
  | block closing => node .block (Block.read n closing ts)
  | call => node .call (Call.read n ts)
  | declaration => node .declaration (Declaration.read n ts)
  | qualifiedRule => node .rule (Rule.readQualified n ts)
  | namedRule => node .rule (Rule.readAt n ts)
  | rules => node .rules (Rule.readAll n ts)
  | styleBlock => node .styleBlock (StyleBlock.read n ts)

end Reader

inductive Step where
  | poll
  | peek
  | peekNth (n : Nat)
  | pollIf (p : Predicate)
  | peekIs (k : Kind)
  | skipBlank
  | state
  | find (p : Predicate)
  | rest
  | depth
  | read (r : Reader)
  | commit
  | isCommitted
  | split (steps : List Step)
  | attempt (steps : List Step) (messages : List String)
  | slice (stop : Predicate) (steps : List Step)
  deriving Inhabited

inductive Answer where
  | nothing
  | token (t : Option Token)
  | bool (b : Bool)
  | state (canPoll isEol isEof : Bool)
  | place (n : Option Nat)
  | sources (texts : List String)
  | depth (n : Nat)
  | node (o : Outcome StructureError Node)
  | messages (ms : List String)
  | finished

/-- The two ways to misuse a split. -/
inductive Misuse where
  | usedAfterCommit
  | committedTwice
  deriving DecidableEq, Repr

namespace Misuse

def message : Misuse -> String
  | usedAfterCommit => "split queue used after commit"
  | committedTwice => "split committed twice"

end Misuse

/-- A queue under a program, and for the queue of a split whether it is committed. -/
structure Frame where
  window : Window
  committed : Option Bool

namespace Frame

def left (f : Frame) : List Token := f.window.left

def ofQueue (w : Window) : Frame := ⟨w, none⟩

def ofSplit (w : Window) : Frame := ⟨w, some false⟩

def plain (ts : List Token) : Frame := .ofQueue (.start ts)

def isClosed (f : Frame) : Bool := f.committed == some true

/-- The number of tokens left, unless the queue may not be used any more. -/
def size? (f : Frame) : Option Nat := if f.isClosed then none else some f.window.remaining

/-- Commit a split.  Other queues have nothing to commit. -/
def commit (f : Frame) : Except Misuse Frame :=
  match f.committed with
  | some true => .error .committedTwice
  | some false => .ok { f with committed := some true }
  | none => .ok f

/-- Go on where a copy stands if it was committed. -/
def settle (f copy : Frame) : Frame :=
  { f with window := if copy.isClosed then copy.window else f.window }

end Frame

/-- An entry in the log of a program. -/
inductive Entry where
  /-- A step with inner steps was reached; so many tokens are left. -/
  | entered (s : Step) (left : Option Nat)
  /-- A step was done. -/
  | done (s : Step) (answer : Answer) (left : Option Nat)
  /-- A split was misused, which ends the program. -/
  | misused (m : Misuse)

/-- The log of a program and the queue it leaves behind. -/
structure Result where
  log : List Entry
  frame : Except Misuse Frame

namespace Result

def done (s : Step) (answer : Answer) (f : Frame) : Result :=
  ⟨[.done s answer f.size?], .ok f⟩

def misused (m : Misuse) : Result := ⟨[.misused m], .error m⟩

/-- A queue is left behind without an entry in the log, unless a split was misused. -/
def ofFrame : Except Misuse Frame -> Result
  | .ok f => ⟨[], .ok f⟩
  | .error m => .misused m

def entered (s : Step) (f : Frame) : Result := ⟨[.entered s f.size?], .ok f⟩

def opened (f inside : Frame) : Result :=
  if f.isClosed then .misused .usedAfterCommit else .ofFrame (.ok inside)

def andThen (r : Result) (next : Frame -> Result) : Result :=
  match r.frame with
  | .ok f => ⟨r.log ++ (next f).log, (next f).frame⟩
  | .error m => ⟨r.log, .error m⟩

def split (f : Frame) (run : Frame -> Result) : Result :=
  (opened f (.ofSplit f.window)).andThen fun copy =>
    (run copy).andThen fun copy => .ofFrame (.ok (f.settle copy))

/-- Run on a split, and commit it if the result is valid. -/
def attempt (f : Frame) (valid : Bool) (run : Frame -> Result) : Result :=
  split f fun copy =>
    (opened copy (.ofQueue copy.window)).andThen fun inside =>
      (run inside).andThen fun inside =>
        let copy := { copy with window := inside.window }
        .ofFrame (if valid then copy.commit else .ok copy)

end Result

/-- A step without inner steps on a queue that may be used. -/
def Step.runPlain (n : Nesting) (s : Step) (f : Frame) : Result :=
  let w := f.window
  match s with
  | poll => .done s (.token w.poll.1) { f with window := w.poll.2 }
  | peek => .done s (.token w.peek?) f
  | peekNth i => .done s (.token (w.peekNth? i)) f
  | pollIf p => .done s (.token (w.pollIf p).1) { f with window := (w.pollIf p).2 }
  | peekIs k => .done s (.bool (w.peekIs k)) f
  | skipBlank => .done s .nothing { f with window := w.skipBlank }
  | state => .done s (.state w.canPoll w.isEol w.isEof) f
  | find p => .done s (.place (w.find? p)) f
  | rest => .done s (.sources (w.left.map Token.source)) f
  | read r =>
      let found := r.read n w.left
      .done s (.node found.outcome) { f with window := w.moveTo found.rest }
  | _ => .done s .nothing f

mutual

/-- Run a step on a queue.  The depth, the commit and its test do not ask for the
tokens of the queue, so that they run on one that may not be used any more. -/
def Step.run (n : Nesting) (s : Step) (f : Frame) : Result :=
  match s with
  | .commit =>
      match f.commit with
      | .ok g => .done s .nothing g
      | .error m => .misused m
  | .isCommitted => .done s (.bool f.isClosed) f
  | .depth => .done s (.depth n.depth) f
  | .split steps =>
      (Result.entered s f).andThen fun f =>
        (Result.split f fun copy => runAll n steps copy).andThen fun g => .done s .finished g
  | .attempt steps messages =>
      let result := Outcome.withMessages () messages
      (Result.entered s f).andThen fun f =>
        (Result.attempt f result.isValid fun inside => runAll n steps inside).andThen fun g =>
          .done s (.messages result.errors) g
  | .slice stop steps =>
      (Result.opened f (.ofQueue (f.window.slice stop))).andThen fun inside =>
        (Result.entered s inside).andThen fun start =>
          (runAll n steps start).andThen fun _ =>
            .done s .finished { f with window := f.window.resume stop }
  | s => if f.isClosed then .misused .usedAfterCommit else s.runPlain n f

def runAll (n : Nesting) (steps : List Step) (f : Frame) : Result :=
  match steps with
  | [] => ⟨[], .ok f⟩
  | s :: steps => (s.run n f).andThen fun g => runAll n steps g

end

end Queue
end StyleTokens
