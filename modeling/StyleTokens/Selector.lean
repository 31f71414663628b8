import StyleTokens.Selector.Simple

/-!
# Selectors

Simple selectors joined by conjunctions and disjunctions.  A selector can be
flattened, so that its weight does not hang on how its parts were joined, and
distributed into groups of simple selectors, as it is written.
-/

namespace StyleTokens

inductive Selector where
  | simple (s : Simple)
  /-- All parts match. -/
  | all (parts : List Selector)
  /-- Some part matches. -/
  | any (parts : List Selector)
  | and (left right : Selector)
  | or (left right : Selector)

namespace Selector

instance : Inhabited Selector := ⟨.simple .universal⟩

/-!
## Meaning and weight
-/

mutual

def accepts (s : Selector) (e : Element) : Bool :=
  match s with
  | .simple s => s.accepts e
  | .all parts => acceptsAll parts e
  | .any parts => acceptsAny parts e
  | .and left right => left.accepts e && right.accepts e
  | .or left right => left.accepts e || right.accepts e

def acceptsAll (parts : List Selector) (e : Element) : Bool :=
  match parts with
  | [] => true
  | s :: parts => s.accepts e && acceptsAll parts e

def acceptsAny (parts : List Selector) (e : Element) : Bool :=
  match parts with
  | [] => false
  | s :: parts => s.accepts e || acceptsAny parts e

end

mutual

/-- The weight of a selector: of a conjunction the sum, of a disjunction the
greatest. -/
def specificity (s : Selector) : Specificity :=
  match s with
  | .simple s => s.specificity
  | .all parts => .sum (specificities parts)
  | .any parts => (Specificity.greatest? (specificities parts)).getD .zero
  | .and left right => left.specificity + right.specificity
  | .or left right => left.specificity.max right.specificity

def specificities (parts : List Selector) : List Specificity :=
  match parts with
  | [] => []
  | s :: parts => s.specificity :: specificities parts

end

theorem specificities_eq_map (parts : List Selector) :
    specificities parts = parts.map specificity := by
  induction parts with
  | nil => rfl
  | cons s parts ih => rw [specificities, ih, List.map_cons]

/-!
## Flattening
-/

/-- The two ways to join selectors. -/
inductive Junction where
  | conjunction
  | disjunction
  deriving DecidableEq, Repr

namespace Junction

def join : Junction -> List Selector -> Selector
  | conjunction, parts => .all parts
  | disjunction, parts => .any parts

/-- A single selector needs no junction. -/
def collapse (j : Junction) (parts : List Selector) : Selector :=
  match parts with
  | [s] => s
  | parts => j.join parts

/-- The parts of a junction inside another one: its own parts if both join alike,
and one part if not. -/
def inside (own outer : Junction) (parts : List Selector) : List Selector :=
  if own = outer then parts else [own.collapse parts]

end Junction

mutual

def parts (s : Selector) (outer : Junction) : List Selector :=
  match s with
  | .simple s => [.simple s]
  | .all inner => Junction.conjunction.inside outer (partsOfAll inner .conjunction)
  | .any inner => Junction.disjunction.inside outer (partsOfAll inner .disjunction)
  | .and left right =>
      Junction.conjunction.inside outer (left.parts .conjunction ++ right.parts .conjunction)
  | .or left right =>
      Junction.disjunction.inside outer (left.parts .disjunction ++ right.parts .disjunction)

def partsOfAll (inner : List Selector) (outer : Junction) : List Selector :=
  match inner with
  | [] => []
  | s :: inner => s.parts outer ++ partsOfAll inner outer

end

theorem partsOfAll_eq_flatMap (inner : List Selector) (outer : Junction) :
    partsOfAll inner outer = inner.flatMap fun s => s.parts outer := by
  induction inner with
  | nil => rfl
  | cons s inner ih => rw [partsOfAll, ih, List.flatMap_cons]

def junction? : Selector -> Option Junction
  | .simple _ => none
  | .all _ => some .conjunction
  | .any _ => some .disjunction
  | .and _ _ => some .conjunction
  | .or _ _ => some .disjunction

/-- Join the parts of nested junctions of one way in one list. -/
def flatten (s : Selector) : Selector :=
  match s.junction? with
  | none => s
  | some j => j.collapse (s.parts j)

/-!
## Groups
-/

def conjoin (groups others : List (List Simple)) : List (List Simple) :=
  groups.flatMap fun group => others.map fun other => group ++ other

mutual

/-- The groups of simple selectors that a selector stands for.  It matches where
all members of one group do. -/
def compounds (s : Selector) : List (List Simple) :=
  match s with
  | .simple s => [[s]]
  | .all parts => compoundsOfAll parts
  | .any parts => compoundsOfAny parts
  | .and left right => conjoin left.compounds right.compounds
  | .or left right => left.compounds ++ right.compounds

def compoundsOfAll (parts : List Selector) : List (List Simple) :=
  match parts with
  | [] => [[]]
  | s :: parts => conjoin s.compounds (compoundsOfAll parts)

def compoundsOfAny (parts : List Selector) : List (List Simple) :=
  match parts with
  | [] => []
  | s :: parts => s.compounds ++ compoundsOfAny parts

end

theorem compoundsOfAll_eq_foldr (parts : List Selector) :
    compoundsOfAll parts = parts.foldr (fun s groups => conjoin s.compounds groups) [[]] := by
  induction parts with
  | nil => rfl
  | cons s parts ih => rw [compoundsOfAll, ih, List.foldr_cons]

theorem compoundsOfAny_eq_flatMap (parts : List Selector) :
    compoundsOfAny parts = parts.flatMap compounds := by
  induction parts with
  | nil => rfl
  | cons s parts ih => rw [compoundsOfAny, ih, List.flatMap_cons]

def text (s : Selector) : String := ", ".intercalate (s.compounds.map Simple.compoundText)

/-!
## Equality
-/

mutual

def same (a b : Selector) : Bool :=
  match a, b with
  | .simple s, .simple u => s.same u
  | .all parts, .all parts' => sameAll parts parts'
  | .any parts, .any parts' => sameAll parts parts'
  | .and left right, .and left' right' => left.same left' && right.same right'
  | .or left right, .or left' right' => left.same left' && right.same right'
  | _, _ => false
termination_by structural a

def sameAll (parts parts' : List Selector) : Bool :=
  match parts, parts' with
  | [], [] => true
  | s :: parts, u :: parts' => s.same u && sameAll parts parts'
  | _, _ => false
termination_by structural parts

end

end Selector

/-- A flat selector with its weight. -/
structure RuleSelector where
  selector : Selector
  specificity : Specificity

namespace RuleSelector

def ofSelector (s : Selector) : RuleSelector := ⟨s.flatten, s.flatten.specificity⟩

def accepts (r : RuleSelector) (e : Element) : Bool := r.selector.accepts e

def text (r : RuleSelector) : String := r.selector.text

def same (a b : RuleSelector) : Bool :=
  a.selector.same b.selector && a.specificity == b.specificity

end RuleSelector

end StyleTokens
