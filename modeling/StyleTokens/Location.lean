/-!
# Locations

Where something stands in a text.  A location moves over characters one at a
time, so the location after a run of characters is a fold, and two runs read one
after the other move it as their concatenation does.
-/

namespace StyleTokens

/-- Line and column count from one, the offset counts characters from zero. -/
structure Location where
  line : Nat
  column : Nat
  offset : Nat
  deriving DecidableEq, Repr

namespace Location

def unknown : Location := ⟨0, 0, 0⟩

def start : Location := ⟨1, 1, 0⟩

instance : Inhabited Location := ⟨unknown⟩

def step (l : Location) (c : Char) : Location :=
  if c = '\n' then ⟨l.line + 1, 1, l.offset + 1⟩
  else ⟨l.line, l.column + 1, l.offset + 1⟩

def past (l : Location) (cs : List Char) : Location :=
  cs.foldl step l

@[simp] theorem past_nil (l : Location) : l.past [] = l := rfl

@[simp] theorem past_cons (l : Location) (c : Char) (cs : List Char) :
    l.past (c :: cs) = (l.step c).past cs := rfl

theorem past_append (l : Location) (a b : List Char) :
    l.past (a ++ b) = (l.past a).past b :=
  List.foldl_append

@[simp] theorem step_offset (l : Location) (c : Char) :
    (l.step c).offset = l.offset + 1 := by
  unfold step
  split <;> rfl

theorem past_offset (l : Location) (cs : List Char) :
    (l.past cs).offset = l.offset + cs.length := by
  induction cs generalizing l with
  | nil => rfl
  | cons c cs ih =>
      rw [past_cons, ih, step_offset, List.length_cons]
      omega

def text (l : Location) : String :=
  toString l.line ++ ":" ++ toString l.column

end Location

end StyleTokens
