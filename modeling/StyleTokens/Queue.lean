import StyleTokens.Css.Kinds

/-!
# Queues of tokens

A queue is the list of the tokens that are left.  Taking a token leaves the tail;
what a nested reader gets is the front of the list up to some token.
-/

namespace StyleTokens

abbrev Predicate := Token -> Bool

namespace Predicate

def ofKind (k : Kind) : Predicate := fun t => t.is k

theorem ofKind_of_isEof {k : Kind} (hk : k.same .eof = false) {t : Token}
    (h : t.isEof = true) : ofKind k t = false := by
  rw [Bool.eq_false_iff]
  intro ht
  rw [not_isEof_of_is ht hk] at h
  cases h

def ofChar (k : Kind) (c : Char) : Predicate := fun t => t.isChar k c

def anyOf (ps : List Predicate) : Predicate := fun t => ps.any fun p => p t

end Predicate

namespace Queue

/-- Is the token skipped where blanks and line ends do not matter?  The end of the
text is not skipped. -/
def isSkipped (t : Token) : Bool :=
  t.isBlank || (t.isTerminator && !t.isEof)

def skipBlank (ts : List Token) : List Token := ts.dropWhile isSkipped

def isEol (ts : List Token) : Bool := ts.head?.any Token.isTerminator

def isEof (ts : List Token) : Bool := ts.head?.all Token.isEof

def find? (p : Predicate) (ts : List Token) : Option Nat := ts.findIdx? p

def before (stop : Predicate) (ts : List Token) : List Token := ts.takeWhile fun t => !stop t

def onward (stop : Predicate) (ts : List Token) : List Token := ts.dropWhile fun t => !stop t

def pollIf (p : Predicate) (ts : List Token) : Option Token × List Token :=
  match ts with
  | [] => (none, [])
  | t :: rest => if p t then (some t, rest) else (none, t :: rest)

def dropIf (p : Predicate) (ts : List Token) : List Token := (pollIf p ts).2

def location (ts : List Token) : Location :=
  match ts with
  | [] => .unknown
  | t :: _ => t.location

@[simp] theorem before_append_onward (stop : Predicate) (ts : List Token) :
    before stop ts ++ onward stop ts = ts :=
  List.takeWhile_append_dropWhile

section Cons

variable {stop : Predicate} {t : Token} (ts : List Token)

theorem before_cons_of_pos (h : stop t = true) : before stop (t :: ts) = [] :=
  List.takeWhile_cons_of_neg (by simp [h])

theorem before_cons_of_neg (h : stop t = false) : before stop (t :: ts) = t :: before stop ts :=
  List.takeWhile_cons_of_pos (by simp [h])

theorem onward_cons_of_pos (h : stop t = true) : onward stop (t :: ts) = t :: ts :=
  List.dropWhile_cons_of_neg (by simp [h])

theorem onward_cons_of_neg (h : stop t = false) : onward stop (t :: ts) = onward stop ts :=
  List.dropWhile_cons_of_pos (by simp [h])

theorem skipBlank_cons_of_pos (h : isSkipped t = true) : skipBlank (t :: ts) = skipBlank ts :=
  List.dropWhile_cons_of_pos h

theorem skipBlank_cons_of_neg (h : isSkipped t = false) : skipBlank (t :: ts) = t :: ts :=
  List.dropWhile_cons_of_neg (by simp [h])

theorem dropIf_cons_of_pos (h : stop t = true) : dropIf stop (t :: ts) = ts := by
  rw [dropIf, pollIf, if_pos h]

theorem dropIf_cons_of_neg (h : stop t = false) : dropIf stop (t :: ts) = t :: ts := by
  rw [dropIf, pollIf, if_neg (by simp [h])]

end Cons

theorem before_append {stop : Predicate} {seg : List Token} (rest : List Token)
    (hseg : forall t, t ∈ seg -> stop t = false) :
    before stop (seg ++ rest) = seg ++ before stop rest :=
  List.takeWhile_append_of_pos fun t ht => by simp [hseg t ht]

theorem onward_append {stop : Predicate} {seg : List Token} (rest : List Token)
    (hseg : forall t, t ∈ seg -> stop t = false) :
    onward stop (seg ++ rest) = onward stop rest :=
  List.dropWhile_append_of_pos fun t ht => by simp [hseg t ht]

theorem skipBlank_suffix (ts : List Token) : skipBlank ts <:+ ts :=
  List.dropWhile_suffix _

theorem onward_suffix (stop : Predicate) (ts : List Token) : onward stop ts <:+ ts :=
  List.dropWhile_suffix _

theorem pollIf_suffix (p : Predicate) (ts : List Token) : (pollIf p ts).2 <:+ ts := by
  cases ts with
  | nil => exact List.suffix_refl []
  | cons t rest =>
      rw [pollIf]
      split
      · exact List.suffix_cons t rest
      · exact List.suffix_refl (t :: rest)

theorem dropIf_suffix (p : Predicate) (ts : List Token) : dropIf p ts <:+ ts :=
  pollIf_suffix p ts

end Queue

end StyleTokens
