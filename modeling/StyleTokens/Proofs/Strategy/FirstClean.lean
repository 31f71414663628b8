import StyleTokens.Strategy.Spec

/-!
# The first clean candidate

A choice reads what the first of its candidates reads that accepts the token at the front
and finds nothing wrong.  The candidates in front of it have been tried on the same queue
and have left it as it was, so that it does not matter how many of them there are.
-/

namespace StyleTokens
namespace Strategy

/-- Does the strategy accept the token at the front and find nothing wrong? -/
def fits (args : Args) (failed : Bool) (t : Token) (ts : List Token) (s : Strategy α) : Bool :=
  s.accepts args t && (s.read args failed (t :: ts)).isClean

section Candidates

variable {s : Strategy α} {args : Args} {failed : Bool} {t : Token} {ts : List Token}

/-!
## One attempt
-/

theorem attempt_of_isClean {input : List Token}
    (h : (s.read args failed input).isClean = true) :
    s.attempt args failed input = s.read args failed input := by
  rw [attempt]
  exact if_pos h

theorem attempt_of_not_isClean {input : List Token}
    (h : (s.read args failed input).isClean = false) :
    s.attempt args failed input = .stay input (s.read args failed input).value
      (s.read args failed input).errors := by
  rw [attempt]
  exact if_neg (by simp [h])

theorem tryEach_of_fits (candidates : List (Strategy α)) (h : s.fits args failed t ts = true) :
    tryEach args failed t (s :: candidates) (t :: ts) =
      (s.read args failed (t :: ts)).map some := by
  rw [fits, Bool.and_eq_true] at h
  rw [tryEach, if_pos h.1, attempt_of_isClean h.2]
  exact if_pos h.2

/-- A candidate that does not fit leaves the queue to the others as it was, whatever it has
taken from its copy. -/
theorem tryEach_of_not_fits (candidates : List (Strategy α))
    (h : s.fits args failed t ts = false) :
    tryEach args failed t (s :: candidates) (t :: ts) =
      tryEach args failed t candidates (t :: ts) := by
  rw [tryEach]
  cases haccepts : s.accepts args t with
  | false => rfl
  | true =>
      have hclean : (s.read args failed (t :: ts)).isClean = false := by
        rw [fits, haccepts, Bool.true_and] at h
        exact h
      have hstay : (Reading.stay (t :: ts) (s.read args failed (t :: ts)).value
          (s.read args failed (t :: ts)).errors).isClean = false := hclean
      rw [if_pos rfl, attempt_of_not_isClean hclean]
      exact if_neg (by simp [hstay])

/-!
## All candidates
-/

/-- The candidates are tried up to the first one that fits.  If none does, the queue is
what it was. -/
theorem tryEach_eq_find? (candidates : List (Strategy α)) :
    tryEach args failed t candidates (t :: ts) =
      match candidates.find? (fits args failed t ts) with
      | some s => (s.read args failed (t :: ts)).map some
      | none => .stay (t :: ts) none [] := by
  induction candidates with
  | nil => rfl
  | cons s candidates ih =>
      cases hfits : s.fits args failed t ts with
      | true => rw [tryEach_of_fits candidates hfits, List.find?_cons_of_pos hfits]
      | false =>
          rw [tryEach_of_not_fits candidates hfits, List.find?_cons_of_neg (by simp [hfits])]
          exact ih

theorem errors_of_find? {candidates : List (Strategy α)}
    (h : candidates.find? (fits args failed t ts) = some s) :
    (s.read args failed (t :: ts)).errors = [] := by
  have hfits := List.find?_some h
  rw [fits, Bool.and_eq_true] at hfits
  exact List.isEmpty_iff.mp hfits.2

theorem find?_eq_of_filter_eq {p : α -> Bool} {as bs : List α}
    (h : as.filter p = bs.filter p) : as.find? p = bs.find? p := by
  rw [← List.head?_filter, ← List.head?_filter, h]

theorem readChoice_eq_find? (candidates : List (Strategy α)) :
    readChoice candidates args failed (t :: ts) =
      match candidates.find? (fits args failed t ts) with
      | some s =>
          ⟨some (s.read args failed (t :: ts)).value, [], (s.read args failed (t :: ts)).rest,
            (s.read args failed (t :: ts)).rest_suffix⟩
      | none => .stay (t :: ts) none [.noAlternatives] := by
  rw [readChoice, tryEach_eq_find?]
  cases hfind : candidates.find? (fits args failed t ts) with
  | some s =>
      apply Reading.ext
      · rfl
      · exact errors_of_find? hfind
      · rfl
  | none => rfl

/-- A choice has the value of its first candidate that fits, no error, and the queue that
this candidate leaves.  If none fits, there is no value, one error, and the queue as it was.
Candidates that do not fit can be put in and left out anywhere. -/
theorem read_choice (candidates : List (Strategy α)) (provider : Option (α -> List Token))
    (args : Args) (failed : Bool) (t : Token) (ts : List Token) :
    ((choice candidates provider).read args failed (t :: ts) =
      match candidates.find? (fits args failed t ts) with
      | some s =>
          ⟨some (s.read args failed (t :: ts)).value, [], (s.read args failed (t :: ts)).rest,
            (s.read args failed (t :: ts)).rest_suffix⟩
      | none => .stay (t :: ts) none [.noAlternatives]) ∧
    StrategyError.noAlternatives.message = "No valid alternatives" ∧
    forall others : List (Strategy α),
      others.filter (fits args failed t ts) = candidates.filter (fits args failed t ts) ->
        (choice others provider).read args failed (t :: ts) =
          (choice candidates provider).read args failed (t :: ts) := by
  refine ⟨readChoice_eq_find? candidates, rfl, ?_⟩
  intro others hothers
  show readChoice others args failed (t :: ts) = readChoice candidates args failed (t :: ts)
  rw [readChoice_eq_find?, readChoice_eq_find?, find?_eq_of_filter_eq hothers]

end Candidates

def namesThen (second : Spec) : Spec :=
  .pair (.plain
    (.list (.string (Scope.ofKind Css.ident) none) { separator := Predicate.ofKind Css.comma })
    second (some { test := Predicate.ofKind Css.colon }))

def numbered : Strategy Value := (namesThen (.number (Scope.ofKind Css.number) none)).strategy

def numberedOrNamed : Strategy Value :=
  (namesThen (.choice [.number (Scope.ofKind Css.number) none,
    .string (Scope.ofKind Css.ident) none] none)).strategy

def firstName : Token := .of Css.ident (.text "a")

def laterNames : List Token :=
  [.bare Css.comma, .of Css.ident (.text "b"), .bare Css.colon, .of Css.ident (.text "c"), .eof]

/-- The first candidate takes all names before it fails.  The second one still finds them,
with the first one in front of it or without. -/
theorem read_choice_nested :
    (numbered.read {} false (firstName :: laterNames)).rest.length = 1 ∧
      (numbered.read {} false (firstName :: laterNames)).isClean = false ∧
      ((choice [numbered, numberedOrNamed] none).read {} false
        (firstName :: laterNames)).errors = [] ∧
      ((choice [numbered, numberedOrNamed] none).read {} false
        (firstName :: laterNames)).value =
          some (numberedOrNamed.read {} false (firstName :: laterNames)).value ∧
      (choice [numberedOrNamed] none).read {} false (firstName :: laterNames) =
        (choice [numbered, numberedOrNamed] none).read {} false (firstName :: laterNames) := by
  have htaken : (numbered.read {} false (firstName :: laterNames)).rest.length = 1 := by
    decide +kernel
  have hfails : (numbered.read {} false (firstName :: laterNames)).isClean = false := by
    decide +kernel
  have hfirst : numbered.fits {} false firstName laterNames = false := by
    rw [fits, hfails, Bool.and_false]
  have hsecond : numberedOrNamed.fits {} false firstName laterNames = true := by
    decide +kernel
  obtain ⟨hread, _, hothers⟩ := read_choice [numbered, numberedOrNamed] none {} false
    firstName laterNames
  rw [List.find?_cons_of_neg (by simp [hfirst]), List.find?_cons_of_pos hsecond] at hread
  have hfilter : [numberedOrNamed].filter (fits {} false firstName laterNames) =
      [numbered, numberedOrNamed].filter (fits {} false firstName laterNames) := by
    simp [hfirst]
  refine ⟨htaken, hfails, ?_, ?_, hothers [numberedOrNamed] hfilter⟩
  · exact congrArg Reading.errors hread
  · exact congrArg Reading.value hread

end Strategy
end StyleTokens
