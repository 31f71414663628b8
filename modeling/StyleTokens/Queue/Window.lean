import StyleTokens.Queue

/-!
# Queues by position

A queue is kept as a run of tokens, which nothing changes, and the position of the first of
them that is left.  A copy has a position of its own.  On the tokens that are left, the
operations on positions are those on lists.
-/

namespace StyleTokens

/-- A run of tokens and a position in it or at its end. -/
structure Window where
  tokens : List Token
  position : Nat
  position_le : position ≤ tokens.length

namespace Window

/-!
## Looking ahead
-/

def start (ts : List Token) : Window := ⟨ts, 0, Nat.zero_le ts.length⟩

def left (w : Window) : List Token := w.tokens.drop w.position

def remaining (w : Window) : Nat := w.tokens.length - w.position

def canPoll (w : Window) : Bool := w.position < w.tokens.length

def peek? (w : Window) : Option Token := w.tokens[w.position]?

def peekNth? (w : Window) (n : Nat) : Option Token := w.tokens[w.position + n]?

def peekIs (w : Window) (k : Kind) : Bool := w.peek?.any fun t => t.is k

def isEol (w : Window) : Bool := w.peek?.any Token.isTerminator

def isEof (w : Window) : Bool := w.peek?.all Token.isEof

def find? (p : Predicate) (w : Window) : Option Nat := w.left.findIdx? p

section Views

variable (w : Window)

theorem remaining_eq : w.remaining = w.left.length :=
  List.length_drop.symm

theorem peek?_eq : w.peek? = w.left.head? :=
  List.head?_drop.symm

theorem peekNth?_eq (n : Nat) : w.peekNth? n = w.left[n]? :=
  List.getElem?_drop.symm

theorem canPoll_eq : w.canPoll = !w.left.isEmpty := by
  rw [Bool.eq_iff_iff, canPoll, left]
  simp

end Views

/-!
## Moving on
-/

def advance (w : Window) (h : w.position < w.tokens.length) : Window :=
  { w with position := w.position + 1, position_le := h }

def poll (w : Window) : Option Token × Window :=
  if h : w.position < w.tokens.length then (some w.tokens[w.position], w.advance h)
  else (none, w)

def pollIf (p : Predicate) (w : Window) : Option Token × Window :=
  if w.peek?.any p then w.poll else (none, w)

def skipBlank (w : Window) : Window :=
  if h : w.position < w.tokens.length then
    if Queue.isSkipped w.tokens[w.position] then (w.advance h).skipBlank else w
  else w
termination_by w.tokens.length - w.position
decreasing_by exact Nat.sub_succ_lt_self _ _ h

/-- Move to where a reader stops, which leaves an end of the tokens. -/
def moveTo (rest : List Token) (w : Window) : Window :=
  { w with position := w.tokens.length - rest.length, position_le := Nat.sub_le _ _ }

theorem left_eq_cons {w : Window} (h : w.position < w.tokens.length) :
    w.left = w.tokens[w.position] :: (w.advance h).left :=
  List.drop_eq_getElem_cons h

theorem left_eq_nil {w : Window} (h : ¬w.position < w.tokens.length) : w.left = [] :=
  List.drop_eq_nil_of_le (Nat.le_of_not_lt h)

theorem poll_fst (w : Window) : w.poll.1 = w.left.head? := by
  rw [poll]
  split
  · rename_i h
    rw [left_eq_cons h, List.head?_cons]
  · rename_i h
    rw [left_eq_nil h, List.head?_nil]

theorem left_poll (w : Window) : w.poll.2.left = w.left.tail := by
  rw [poll]
  split
  · rename_i h
    rw [left_eq_cons h, List.tail_cons]
  · rename_i h
    rw [left_eq_nil h, List.tail_nil]

theorem pollIf_eq (p : Predicate) (w : Window) :
    (w.pollIf p).1 = (Queue.pollIf p w.left).1 ∧
      (w.pollIf p).2.left = (Queue.pollIf p w.left).2 := by
  rw [pollIf, peek?_eq]
  have hpoll := w.poll_fst
  have hleft := w.left_poll
  cases hw : w.left with
  | nil =>
      rw [List.head?_nil, Option.any_none, if_neg Bool.false_ne_true]
      exact ⟨rfl, hw⟩
  | cons t ts =>
      rw [hw] at hpoll hleft
      rw [List.head?_cons, Option.any_some, Queue.pollIf]
      split
      · exact ⟨hpoll, hleft⟩
      · exact ⟨rfl, hw⟩

theorem left_skipBlank (w : Window) : w.skipBlank.left = Queue.skipBlank w.left := by
  fun_induction skipBlank w with
  | case1 w h hskipped ih => rw [ih, left_eq_cons h, Queue.skipBlank_cons_of_pos _ hskipped]
  | case2 w h hkept =>
      rw [left_eq_cons h, Queue.skipBlank_cons_of_neg _ (Bool.not_eq_true _ ▸ hkept)]
  | case3 w h =>
      rw [left_eq_nil h]
      rfl

theorem left_moveTo {w : Window} {rest : List Token} (h : rest <:+ w.left) :
    (w.moveTo rest).left = rest :=
  (List.suffix_iff_eq_drop.mp (h.trans (List.drop_suffix _ _))).symm

/-!
## Slices
-/

/-- Where the first token stands that passes a test, or where the run ends. -/
def stopAt (stop : Predicate) (w : Window) : Nat :=
  match w.find? stop with
  | some offset => w.position + offset
  | none => w.tokens.length

theorem stopAt_eq (stop : Predicate) (w : Window) :
    w.stopAt stop = w.position + w.left.findIdx stop := by
  rw [stopAt, find?]
  cases hfind : w.left.findIdx? stop with
  | some offset => rw [(List.findIdx?_eq_some_iff_findIdx_eq.mp hfind).2]
  | none =>
      have hlength := List.findIdx_eq_length.mpr (List.findIdx?_eq_none_iff.mp hfind)
      rw [hlength, ← remaining_eq, remaining, Nat.add_sub_cancel' w.position_le]

theorem stopAt_le (stop : Predicate) (w : Window) : w.stopAt stop ≤ w.tokens.length := by
  have hle : w.left.findIdx stop ≤ w.remaining := w.remaining_eq ▸ List.findIdx_le_length
  rw [stopAt_eq]
  exact Nat.add_le_of_le_sub' w.position_le hle

/-- The queue of a slice: the tokens from the position up to the stop token. -/
def slice (stop : Predicate) (w : Window) : Window :=
  start (w.tokens.extract w.position (w.stopAt stop))

def resume (stop : Predicate) (w : Window) : Window :=
  { w with position := w.stopAt stop, position_le := w.stopAt_le stop }

theorem slice_eq (stop : Predicate) (w : Window) :
    w.slice stop = start (Queue.before stop w.left) := by
  rw [slice, List.extract_eq_take_drop, stopAt_eq, Nat.add_sub_cancel_left, Queue.before,
    List.takeWhile_eq_take_findIdx_not]
  simp [left]

theorem left_resume (stop : Predicate) (w : Window) :
    (w.resume stop).left = Queue.onward stop w.left := by
  rw [Queue.onward, List.dropWhile_eq_drop_findIdx_not]
  simp [left, resume, stopAt_eq]

/-!
## Positions
-/

/-- The queue moved on over its tokens, or stayed where it was. -/
structure MovesTo (w v : Window) : Prop where
  tokens_eq : v.tokens = w.tokens
  position_le : w.position ≤ v.position

namespace MovesTo

variable {u v w : Window}

theorem refl (w : Window) : w.MovesTo w := ⟨rfl, Nat.le_refl _⟩

theorem trans (h : u.MovesTo v) (h' : v.MovesTo w) : u.MovesTo w :=
  ⟨h'.tokens_eq.trans h.tokens_eq, Nat.le_trans h.position_le h'.position_le⟩

/-- Whether a copy is kept or not, the queue does not go back. -/
theorem ite {c : Prop} [Decidable c] (h : w.MovesTo v) : w.MovesTo (if c then v else w) := by
  split
  · exact h
  · exact .refl w

theorem suffix (h : w.MovesTo v) : v.left <:+ w.left := by
  rw [left, h.tokens_eq]
  exact List.drop_suffix_drop_left w.tokens h.position_le

end MovesTo

theorem movesTo_advance {w : Window} (h : w.position < w.tokens.length) :
    w.MovesTo (w.advance h) :=
  ⟨rfl, Nat.le_succ _⟩

theorem movesTo_poll (w : Window) : w.MovesTo w.poll.2 := by
  rw [poll]
  split
  · exact movesTo_advance _
  · exact .refl w

theorem movesTo_pollIf (p : Predicate) (w : Window) : w.MovesTo (w.pollIf p).2 := by
  rw [pollIf]
  split
  · exact w.movesTo_poll
  · exact .refl w

theorem movesTo_skipBlank (w : Window) : w.MovesTo w.skipBlank := by
  fun_induction skipBlank w with
  | case1 w h _ ih => exact (movesTo_advance h).trans ih
  | case2 w => exact .refl w
  | case3 w => exact .refl w

theorem movesTo_moveTo {w : Window} {rest : List Token} (h : rest <:+ w.left) :
    w.MovesTo (w.moveTo rest) := by
  have hlength : rest.length ≤ w.tokens.length - w.position :=
    Nat.le_trans h.length_le (Nat.le_of_eq w.remaining_eq.symm)
  exact ⟨rfl, Nat.le_sub_of_add_le' (Nat.add_le_of_le_sub w.position_le hlength)⟩

theorem movesTo_resume (stop : Predicate) (w : Window) : w.MovesTo (w.resume stop) :=
  ⟨rfl, Nat.le_trans (Nat.le_add_right _ _) (Nat.le_of_eq (w.stopAt_eq stop).symm)⟩

end Window

end StyleTokens
