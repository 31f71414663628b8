import StyleTokens.Strategy

/-!
# Lists

A list is cut into segments at its separators, and every segment is read by one
and the same strategy for the elements.  Where the cuts are does not depend on
that strategy.  What is wrong with an element is kept with it until the values
are collected, so that one bad element leaves the others as they are.
-/

namespace StyleTokens

/-- What happens where a gate ends a list. -/
structure GateManner where
  /-- Is the gate itself taken from the queue? -/
  taken : Bool := false
  /-- Is it an error to end the list there? -/
  isError : Bool := false
  /-- Does a gate end an element too? -/
  endsElement : Bool := false
  deriving DecidableEq, Repr

/-- The tokens written around and between the elements. -/
structure ListEncoding where
  opening : List Token := []
  separator : List Token := []
  closing : List Token := []

/-- Where a list and its elements begin and end. -/
structure ListShape where
  /-- The token that has to open the list. -/
  opens : Option Predicate := none
  /-- The token that has to close the list. -/
  closes : Option Predicate := none
  /-- The token between two elements. -/
  separator : Predicate
  /-- Tokens behind the list that end it too. -/
  gates : List Predicate := []
  atGate : GateManner := {}
  /-- Are elements with errors left out of the value? -/
  skipsFaulty : Bool := false
  encoding : ListEncoding := {}

namespace ListShape

def isEnd (s : ListShape) (t : Token) : Bool := s.closes.any fun p => p t

def isGate (s : ListShape) (t : Token) : Bool := s.gates.any fun gate => gate t

def isSeparator (s : ListShape) (t : Token) : Bool := s.separator t

def isStop (s : ListShape) (t : Token) : Bool :=
  t.isEof || s.isSeparator t || s.isEnd t || (s.atGate.endsElement && s.isGate t)

/-- Is the token a blank or a line end without a meaning for the list? -/
def isLoose (s : ListShape) (t : Token) : Bool :=
  Queue.isSkipped t && !s.isEnd t && !s.isGate t && !s.isSeparator t

def skipLoose (s : ListShape) (ts : List Token) : List Token := ts.dropWhile s.isLoose

theorem skipLoose_suffix (s : ListShape) (ts : List Token) : s.skipLoose ts <:+ ts :=
  List.dropWhile_suffix _

/-!
## The cuts
-/

/-- The queue behind the segment at its front, and behind the separator that ends
the segment. -/
def afterSegment (s : ListShape) (ts : List Token) : List Token :=
  Queue.dropIf s.isSeparator (s.skipLoose (Queue.onward s.isStop ts))

theorem afterSegment_suffix (s : ListShape) (ts : List Token) : s.afterSegment ts <:+ ts :=
  (Queue.dropIf_suffix _ _).trans ((s.skipLoose_suffix _).trans (Queue.onward_suffix _ _))

/-- A token that does not end the list belongs to the segment or is the separator
behind it, so that every cut takes a token. -/
theorem afterSegment_length_lt (s : ListShape) (t : Token) (ts : List Token)
    (hend : s.isEnd t = false) (hgate : s.isGate t = false) (heof : t.isEof = false) :
    (s.afterSegment (t :: ts)).length < (t :: ts).length := by
  by_cases hsep : s.isSeparator t = true
  · have hstop : s.isStop t = true := by
      simp [isStop, hsep]
    have hskip : s.skipLoose (t :: ts) = t :: ts := by
      simp [skipLoose, isLoose, hsep]
    rw [afterSegment, Queue.onward_cons_of_pos ts hstop, hskip, Queue.dropIf_cons_of_pos ts hsep]
    exact Nat.lt_succ_self ts.length
  · have hstop : s.isStop t = false := by
      simp [isStop, hsep, hend, hgate, heof]
    rw [afterSegment, Queue.onward_cons_of_neg ts hstop]
    have hsuffix : Queue.dropIf s.isSeparator (s.skipLoose (Queue.onward s.isStop ts)) <:+ ts :=
      (Queue.dropIf_suffix _ _).trans ((s.skipLoose_suffix _).trans (Queue.onward_suffix _ _))
    exact Nat.lt_succ_of_le hsuffix.length_le

def unclosed (s : ListShape) (start : Location) : List StrategyError :=
  if s.closes.isSome then [.unclosed "List" start] else []

/-- Cut the tokens behind the opening into segments. -/
def cut (s : ListShape) (start : Location) (input : List Token) :
    Reading (List (List Token)) input :=
  match input with
  | [] => .stay [] [] (s.unclosed start)
  | t :: ts =>
      if s.isLoose t then (s.cut start ts).ofSuffix (List.suffix_cons t ts)
      else if s.isEnd t then ⟨[], [], ts, List.suffix_cons t ts⟩
      else if s.isGate t then
        let errors := if s.atGate.isError then [.listNotClosed t.location] else []
        if s.atGate.taken then ⟨[], errors, ts, List.suffix_cons t ts⟩
        else .stay (t :: ts) [] errors
      else if t.isEof then .stay (t :: ts) [] (s.unclosed start)
      else
        ((s.cut start (s.afterSegment (t :: ts))).map
            fun segments => Queue.before s.isStop (t :: ts) :: segments).ofSuffix
          (s.afterSegment_suffix (t :: ts))
termination_by input.length
decreasing_by
  · exact Nat.lt_succ_self _
  · exact s.afterSegment_length_lt t ts (by simpa using ‹¬s.isEnd t = true›)
      (by simpa using ‹¬s.isGate t = true›) (by simpa using ‹¬t.isEof = true›)

def segments (s : ListShape) (input : List Token) : Reading (List (List Token)) input :=
  match input with
  | [] => .stay [] [] [.noTokens]
  | t :: ts =>
      match s.opens with
      | none => s.cut t.location (t :: ts)
      | some p =>
          if p t then (s.cut t.location ts).ofSuffix (List.suffix_cons t ts)
          else .stay (t :: ts) [] [.unknownToken "List" t.shown t.location]

end ListShape

namespace Strategy

/-!
## The elements
-/

def unknownTokens (ts : List Token) (l : Location) : List StrategyError :=
  if ts.isEmpty then [] else [.unknownTokens (ts.map Token.shown) l]

/-- Read a segment.  Tokens before the first one that the strategy accepts and
tokens that it leaves are reported behind its own errors. -/
def readSegment (s : Strategy α) (args : Args) (failed : Bool) (segment : List Token) :
    Outcome StrategyError α :=
  let skipped := Queue.before (s.accepts args) segment
  let found := s.read args failed (Queue.onward (s.accepts args) segment)
  let unknown := (skipped ++ found.rest).filter Token.isSignificant
  ⟨found.value, found.errors ++ unknownTokens unknown (Queue.location segment)⟩

def readSegments (s : Strategy α) (args : Args) (failed : Bool) :
    List (List Token) -> List (Outcome StrategyError α)
  | [] => []
  | segment :: segments =>
      let entry := s.readSegment args failed segment
      entry :: s.readSegments args (failed || entry.isError) segments

theorem readSegment_failed {s : Strategy α} (h : s.IsSteady) (args : Args) (failed : Bool)
    (segment : List Token) :
    s.readSegment args failed segment = s.readSegment args false segment := by
  rw [readSegment, h]
  rfl

theorem readSegments_eq_map {s : Strategy α} (h : s.IsSteady) (args : Args) (failed : Bool)
    (segments : List (List Token)) :
    s.readSegments args failed segments = segments.map (s.readSegment args false) := by
  induction segments generalizing failed with
  | nil => rfl
  | cons segment segments ih =>
      rw [readSegments, ih, readSegment_failed h]
      rfl

end Strategy

/-!
## Collecting the values
-/

namespace ListShape

def entryError (skips : Bool) (index : Nat) (messages : List String) : StrategyError :=
  if skips then .skippedEntry index messages else .listEntry index messages

def entryErrors (skips : Bool) (index : Nat) : List (Outcome String α) -> List StrategyError
  | [] => []
  | entry :: entries =>
      if entry.isError then
        entryError skips index entry.errors :: entryErrors skips (index + 1) entries
      else entryErrors skips (index + 1) entries

def kept (skips : Bool) (entries : List (Outcome String α)) : List (Outcome String α) :=
  if skips then entries.filter Outcome.isValid else entries

/-- The values of the elements with one error for each bad element. -/
def build (skips : Bool) (entries : List (Outcome String α)) : Outcome StrategyError (List α) :=
  ⟨(kept skips entries).map Outcome.value, entryErrors skips 0 entries⟩

end ListShape

def Outcome.worded (o : Outcome StrategyError α) : Outcome String α :=
  o.mapErrors StrategyError.message

namespace Strategy

def entries (element : Strategy α) (shape : ListShape) (args : Args) (failed : Bool)
    (input : List Token) : Reading (List (Outcome StrategyError α)) input :=
  (shape.segments input).map (element.readSegments args failed)

def emitList (element : Strategy α) (e : ListEncoding) (values : List α) :
    Except StrategyError (List Token) := do
  let parts ← values.mapM element.emit
  return e.opening ++ e.separator.intercalate parts ++ e.closing

def startsList (element : Strategy α) (shape : ListShape) (args : Args) (t : Token) : Bool :=
  match shape.opens with
  | some p => p t
  | none => element.accepts args t

def list (element : Strategy α) (shape : ListShape) : Strategy (List α) :=
  { id := "List"
    accepts := element.startsList shape
    read := fun args failed input =>
      let found := element.entries shape args failed input
      let built := ListShape.build shape.skipsFaulty (found.value.map Outcome.worded)
      ⟨built.value, found.errors ++ built.errors, found.rest, found.rest_suffix⟩
    emit := element.emitList shape.encoding }

theorem entries_failed {element : Strategy α} (h : element.IsSteady) (shape : ListShape)
    (args : Args) (failed : Bool) (input : List Token) :
    element.entries shape args failed input = element.entries shape args false input := by
  simp only [entries, Reading.map, readSegments_eq_map h]

theorem isSteady_list {element : Strategy α} (h : element.IsSteady) (shape : ListShape) :
    (element.list shape).IsSteady := by
  intro args failed input
  simp only [list, entries_failed h]

end Strategy

end StyleTokens
