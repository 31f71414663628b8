/-!
# Specificity

The weight of a selector: three counts, of which the first that differs decides.
-/

namespace StyleTokens

structure Specificity where
  ids : Nat
  /-- Classes, states and functions. -/
  classes : Nat
  types : Nat
  deriving DecidableEq, Repr

namespace Specificity

def zero : Specificity := ⟨0, 0, 0⟩

def oneId : Specificity := ⟨1, 0, 0⟩

def oneClass : Specificity := ⟨0, 1, 0⟩

def oneType : Specificity := ⟨0, 0, 1⟩

def add (a b : Specificity) : Specificity :=
  ⟨a.ids + b.ids, a.classes + b.classes, a.types + b.types⟩

instance : Add Specificity := ⟨add⟩

theorem add_eq (a b : Specificity) :
    a + b = ⟨a.ids + b.ids, a.classes + b.classes, a.types + b.types⟩ := rfl

def compare (a b : Specificity) : Ordering :=
  (Ord.compare a.ids b.ids).then
    ((Ord.compare a.classes b.classes).then (Ord.compare a.types b.types))

instance : Ord Specificity := ⟨compare⟩

def isLe (a b : Specificity) : Bool := (a.compare b).isLE

def max (a b : Specificity) : Specificity := if a.isLe b then b else a

def sum (ws : List Specificity) : Specificity := ws.foldr add zero

def greatest? : List Specificity -> Option Specificity
  | [] => none
  | w :: ws =>
      match greatest? ws with
      | none => some w
      | some m => some (w.max m)

def text (w : Specificity) : String :=
  "(" ++ toString w.ids ++ ", " ++ toString w.classes ++ ", " ++ toString w.types ++ ")"

end Specificity

end StyleTokens
