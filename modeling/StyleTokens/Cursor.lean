import StyleTokens.Location

/-!
# Cursors

A cursor stands in a text: it holds the characters that are left and the
location of the first of them.  Moving over characters keeps the two in step.
-/

namespace StyleTokens

/-- The rest of a text and where it starts. -/
structure Cursor where
  rest : List Char
  location : Location
  deriving DecidableEq, Repr

namespace Cursor

def ofList (cs : List Char) : Cursor := ⟨cs, .start⟩

def isEof (c : Cursor) : Bool := c.rest.isEmpty

def peek? (c : Cursor) : Option Char := c.rest.head?

def peekAt? (c : Cursor) (n : Nat) : Option Char := c.rest[n]?

def startsWith (c : Cursor) (cs : List Char) : Bool := cs.isPrefixOf c.rest

def skip (c : Cursor) (n : Nat) : Cursor :=
  ⟨c.rest.drop n, c.location.past (c.rest.take n)⟩

def moveTo (c : Cursor) (rest : List Char) : Cursor :=
  c.skip (c.rest.length - rest.length)

def advance (c : Cursor) : Option Char × Cursor :=
  (c.peek?, c.skip 1)

def takeWhile (c : Cursor) (p : Char -> Bool) : List Char × Cursor :=
  (c.rest.takeWhile p, c.moveTo (c.rest.dropWhile p))

def run (c : Cursor) (read : List Char -> α × List Char) : α × Cursor :=
  ((read c.rest).1, c.moveTo (read c.rest).2)

theorem moveTo_of_suffix {c : Cursor} {taken rest : List Char}
    (h : taken ++ rest = c.rest) :
    c.moveTo rest = ⟨rest, c.location.past taken⟩ := by
  have hlen : c.rest.length - rest.length = taken.length := by
    rw [← h, List.length_append]
    omega
  unfold moveTo skip
  rw [hlen, ← h, List.drop_left, List.take_left]

theorem moveTo_rest {c : Cursor} {rest : List Char} (h : rest <:+ c.rest) :
    (c.moveTo rest).rest = rest := by
  rcases h with ⟨taken, h⟩
  rw [moveTo_of_suffix h]

theorem moveTo_offset (c : Cursor) (rest : List Char) :
    (c.moveTo rest).location.offset =
      c.location.offset + (c.rest.length - rest.length) := by
  rw [moveTo, skip, Location.past_offset, List.length_take, Nat.min_eq_left (Nat.sub_le _ _)]

theorem moveTo_of_offset {c : Cursor} {rest : List Char}
    (h : (c.moveTo rest).location.offset = c.location.offset) : c.moveTo rest = c := by
  rw [moveTo_offset] at h
  have hnone : c.rest.length - rest.length = 0 := by omega
  unfold moveTo skip
  rw [hnone, List.drop_zero, List.take_zero, Location.past_nil]

theorem length_moveTo_lt {c : Cursor} {rest : List Char}
    (h : (c.moveTo rest).location.offset ≠ c.location.offset) :
    (c.moveTo rest).rest.length < c.rest.length := by
  rw [moveTo_offset] at h
  rw [moveTo, skip, List.length_drop]
  omega

end Cursor

end StyleTokens
