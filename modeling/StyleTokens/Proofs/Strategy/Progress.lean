import StyleTokens.Proofs.Strategy.Splitting

/-!
# Reading a list makes progress

A list is read in passes.  A pass skips what is loose, ends the list if the token behind it
says so, and reads an element up to the next stop if not.  The tests of the list may overlap
and may hold for blanks, for line ends and for the end of the text.  Whatever they are, a pass
that does not end the list takes a token off the queue, so that the list ends.
-/

namespace StyleTokens

namespace ListShape

variable {s : ListShape} {start : Location}

/-- What ends the list at a gate: the errors, and the queue behind it. -/
def closeAt (s : ListShape) (t : Token) (ts : List Token) : List StrategyError × List Token :=
  (if s.atGate.isError then [.listNotClosed t.location] else [],
    if s.atGate.taken then ts else t :: ts)

def opened? (s : ListShape) (input : List Token) : Option (List Token) :=
  match input with
  | [] => none
  | t :: ts =>
      match s.opens with
      | none => some (t :: ts)
      | some p => if p t then some ts else none

/-!
## Turns of the cuts
-/

theorem cut_skipLoose (ts : List Token) :
    (s.cut start (s.skipLoose ts)).parts = (s.cut start ts).parts := by
  induction ts with
  | nil => rfl
  | cons t ts ih =>
      cases hloose : s.isLoose t with
      | true =>
          rw [skipLoose, List.dropWhile_cons_of_pos hloose, cut_loose start ts hloose]
          exact ih
      | false => rw [skipLoose, List.dropWhile_cons_of_neg (by simp [hloose])]

theorem not_isLoose_of_skipLoose {t : Token} {ts us : List Token}
    (h : s.skipLoose ts = t :: us) : s.isLoose t = false := by
  have hnot := List.head?_dropWhile_not s.isLoose ts
  rw [← skipLoose, h] at hnot
  exact hnot

theorem cut_gate {t : Token} (ts : List Token) (hloose : s.isLoose t = false)
    (hend : s.isEnd t = false) (hgate : s.isGate t = true) :
    (s.cut start (t :: ts)).parts = ([], s.closeAt t ts) := by
  rw [cut, if_neg (by simp [hloose]), if_neg (by simp [hend]), if_pos hgate, closeAt]
  cases s.atGate.taken <;> rfl

theorem cut_eof {t : Token} (ts : List Token) (hloose : s.isLoose t = false)
    (hend : s.isEnd t = false) (hgate : s.isGate t = false) (heof : t.isEof = true) :
    (s.cut start (t :: ts)).parts = ([], s.unclosed start, t :: ts) := by
  rw [cut, if_neg (by simp [hloose]), if_neg (by simp [hend]), if_neg (by simp [hgate]),
    if_pos heof]
  rfl

theorem segments_of_opened? {input ts : List Token} (h : s.opened? input = some ts) :
    (s.segments input).parts = (s.cut (Queue.location input) ts).parts := by
  cases input with
  | nil => cases h
  | cons t us =>
      unfold opened? at h
      unfold segments
      cases hopens : s.opens with
      | none =>
          simp only [hopens, Option.some.injEq] at h
          rw [← h]
          rfl
      | some p =>
          simp only [hopens] at h
          split at h
          · rename_i hp
            cases h
            simp only [if_pos hp]
            rfl
          · cases h

end ListShape

namespace Strategy

/-!
## Passes
-/

/-- Where the reading of a list stands between two passes. -/
structure ListState (α : Type) where
  /-- The tokens that are left. -/
  queue : List Token
  /-- The elements that were read. -/
  entries : List (Outcome StrategyError α)
  /-- Has a reading around the list or an element before failed? -/
  failed : Bool

/-- What a pass comes to. -/
inductive Pass (α : Type) where
  /-- The list has ended. -/
  | ended (errors : List StrategyError) (rest : List Token)
  /-- An element was read, and the next pass goes on behind it. -/
  | more (next : ListState α)

section Passes

variable (element : Strategy α) (shape : ListShape) (args : Args) (start : Location)

/-- Read the segment at the front of the queue.  Whatever the element leaves of it, the queue
goes on behind the segment and its separator. -/
def readElement (s : ListState α) (queue : List Token) : ListState α :=
  let entry := element.readSegment args s.failed (Queue.before shape.isStop queue)
  { queue := shape.afterSegment queue
    entries := s.entries ++ [entry]
    failed := s.failed || entry.isError }

/-- One pass over the queue: skip what is loose, and end the list or read an element. -/
def pass (s : ListState α) : Pass α :=
  match shape.skipLoose s.queue with
  | [] => .ended (shape.unclosed start) []
  | t :: ts =>
      if shape.isEnd t then .ended [] ts
      else if shape.isGate t then .ended (shape.closeAt t ts).1 (shape.closeAt t ts).2
      else if t.isEof then .ended (shape.unclosed start) (t :: ts)
      else .more (element.readElement shape args s (t :: ts))

/-- Passes from a state on until one ends the list: how many of them read an element, and the
elements, the errors and the queue at the end. -/
inductive Passes :
    Nat -> ListState α -> List (Outcome StrategyError α) × List StrategyError × List Token -> Prop
  | ended {s : ListState α} {errors : List StrategyError} {rest : List Token}
      (h : element.pass shape args start s = .ended errors rest) :
      Passes 0 s (s.entries, errors, rest)
  | more {s next : ListState α} {n : Nat}
      {ending : List (Outcome StrategyError α) × List StrategyError × List Token}
      (h : element.pass shape args start s = .more next) (hrest : Passes n next ending) :
      Passes (n + 1) s ending

/-- A pass is one turn of the cuts.  Either both end, or both go on from a shorter queue. -/
theorem pass_cases (s : ListState α) :
    (exists errors rest, element.pass shape args start s = .ended errors rest ∧
      (shape.cut start s.queue).parts = ([], errors, rest)) ∨
    exists queue, element.pass shape args start s =
        .more (element.readElement shape args s queue) ∧
      (shape.afterSegment queue).length < s.queue.length ∧
      (shape.cut start s.queue).parts =
        (Queue.before shape.isStop queue :: (shape.cut start (shape.afterSegment queue)).parts.1,
          (shape.cut start (shape.afterSegment queue)).parts.2) := by
  unfold pass
  rw [← shape.cut_skipLoose s.queue]
  have hsuffix := (shape.skipLoose_suffix s.queue).length_le
  cases hqueue : shape.skipLoose s.queue with
  | nil =>
      refine Or.inl ⟨_, _, rfl, ?_⟩
      rw [ListShape.cut]
      rfl
  | cons t ts =>
      have hloose := ListShape.not_isLoose_of_skipLoose hqueue
      rw [hqueue] at hsuffix
      dsimp only
      by_cases hend : shape.isEnd t = true
      · rw [if_pos hend]
        exact Or.inl ⟨[], ts, rfl, ListShape.cut_end ts hend⟩
      rw [if_neg hend]
      rw [Bool.not_eq_true] at hend
      by_cases hgate : shape.isGate t = true
      · rw [if_pos hgate]
        exact Or.inl ⟨_, _, rfl, ListShape.cut_gate ts hloose hend hgate⟩
      rw [if_neg hgate]
      rw [Bool.not_eq_true] at hgate
      by_cases heof : t.isEof = true
      · rw [if_pos heof]
        exact Or.inl ⟨_, _, rfl, ListShape.cut_eof ts hloose hend hgate heof⟩
      rw [if_neg heof]
      rw [Bool.not_eq_true] at heof
      -- The first token is in the segment, or it is the separator behind an empty one.
      have hlt := shape.afterSegment_length_lt t ts hend hgate heof
      exact Or.inr ⟨t :: ts, rfl, hlt.trans_le hsuffix,
        ListShape.cut_element ts hloose hend hgate heof⟩

end Passes

variable {element : Strategy α} {shape : ListShape} {args : Args} {start : Location}

theorem cut_of_pass_ended {s : ListState α} {errors : List StrategyError} {rest : List Token}
    (h : element.pass shape args start s = .ended errors rest) :
    (shape.cut start s.queue).parts = ([], errors, rest) := by
  rcases element.pass_cases shape args start s with ⟨_, _, hpass, hcut⟩ | ⟨_, hpass, _⟩
  · rw [hpass] at h
    cases h
    exact hcut
  · rw [hpass] at h
    cases h

theorem exists_queue_of_pass_more {s next : ListState α}
    (h : element.pass shape args start s = .more next) :
    exists queue, next = element.readElement shape args s queue ∧
      next.queue.length < s.queue.length ∧
      (shape.cut start s.queue).parts =
        (Queue.before shape.isStop queue :: (shape.cut start next.queue).parts.1,
          (shape.cut start next.queue).parts.2) := by
  rcases element.pass_cases shape args start s with ⟨_, _, hpass, _⟩ | ⟨queue, hpass, hlt, hcut⟩
  · rw [hpass] at h
    cases h
  · rw [hpass] at h
    cases h
    exact ⟨queue, rfl, hlt, hcut⟩

theorem length_lt_of_pass {s next : ListState α}
    (h : element.pass shape args start s = .more next) : next.queue.length < s.queue.length := by
  obtain ⟨_, _, hlt, _⟩ := exists_queue_of_pass_more h
  exact hlt

/-- From every state on the passes come to an end, each token paying for one of them. -/
theorem exists_passes (element : Strategy α) (shape : ListShape) (args : Args)
    (start : Location) (s : ListState α) :
    exists n ending, n ≤ s.queue.length ∧ Passes element shape args start n s ending := by
  induction hlen : s.queue.length using Nat.strong_induction_on generalizing s with
  | _ k ih =>
      cases hpass : element.pass shape args start s with
      | ended errors rest => exact ⟨0, _, Nat.zero_le k, .ended hpass⟩
      | more next =>
          have hlt := length_lt_of_pass hpass
          rw [hlen] at hlt
          rcases ih next.queue.length hlt next rfl with ⟨n, ending, hn, hrest⟩
          exact ⟨n + 1, ending, Nat.lt_of_le_of_lt hn hlt, .more hpass hrest⟩

theorem Passes.ending_eq {n : Nat} {s : ListState α}
    {ending : List (Outcome StrategyError α) × List StrategyError × List Token}
    (h : Passes element shape args start n s ending) :
    ending = (s.entries ++ element.readSegments args s.failed (shape.cut start s.queue).parts.1,
      (shape.cut start s.queue).parts.2) := by
  induction h with
  | @ended s errors rest h => rw [cut_of_pass_ended h, readSegments, List.append_nil]
  | @more s next n ending h _ ih =>
      obtain ⟨queue, rfl, -, hcut⟩ := exists_queue_of_pass_more h
      rw [ih, hcut, readSegments]
      simp only [readElement, List.append_assoc, List.singleton_append]

/-- Whatever tests begin, end, separate and gate a list, and whatever reads its elements, a
pass that does not end the list leaves fewer tokens, so that the passes come to an end, and
what they have read then is what the list is read as. -/
theorem list_makes_progress (element : Strategy α) (shape : ListShape) (args : Args) :
    (forall start s next, element.pass shape args start s = .more next ->
      next.queue.length < s.queue.length) ∧
    (forall start s, exists n ending, n ≤ s.queue.length ∧
      Passes element shape args start n s ending) ∧
    forall failed input queue, shape.opened? input = some queue -> forall n ending,
      Passes element shape args (Queue.location input) n ⟨queue, [], failed⟩ ending ->
        ending = (element.entries shape args failed input).parts := by
  refine ⟨fun _ _ _ h => length_lt_of_pass h, element.exists_passes shape args, ?_⟩
  intro failed input queue hopened n ending hpasses
  rw [hpasses.ending_eq, ← ListShape.segments_of_opened? hopened]
  rfl

def anything : ListShape :=
  { opens := some fun _ => true
    closes := some (Predicate.ofKind Css.colon)
    separator := fun _ => true
    gates := [Predicate.ofKind Css.colon, Predicate.ofKind Css.whitespace]
    atGate := { isError := true, endsElement := true } }

def twoCommas : ListState Value :=
  { queue := [.bare Css.comma, .bare Css.comma, .eof], entries := [], failed := false }

/-- Where every token is a separator the elements are read from nothing, and every one of
them takes its separator.  The end of the text ends the list. -/
theorem list_makes_progress_anything :
    (exists next, namePair.strategy.pass anything {} .unknown twoCommas = .more next ∧
      next.queue.length < twoCommas.queue.length) ∧
    anything.opened? (.bare Css.comma :: twoCommas.queue) = some twoCommas.queue ∧
      exists n ending, n ≤ 3 ∧
        Passes namePair.strategy anything {} .unknown n twoCommas ending ∧
        ending = (namePair.strategy.entries anything {} false
          (.bare Css.comma :: twoCommas.queue)).parts := by
  obtain ⟨hlt, hends, heq⟩ := list_makes_progress namePair.strategy anything {}
  have hpass : namePair.strategy.pass anything {} .unknown twoCommas =
      .more (namePair.strategy.readElement anything {} twoCommas twoCommas.queue) := rfl
  have hopened : anything.opened? (.bare Css.comma :: twoCommas.queue) =
      some twoCommas.queue := rfl
  rcases hends .unknown twoCommas with ⟨n, ending, hn, hpasses⟩
  exact ⟨⟨_, hpass, hlt .unknown _ _ hpass⟩, hopened, n, ending, hn, hpasses,
    heq false _ _ hopened n ending hpasses⟩

end Strategy
end StyleTokens
