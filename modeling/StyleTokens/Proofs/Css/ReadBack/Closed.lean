import StyleTokens.Proofs.Css.ReadBack.Run

/-!
# Runs behind which a parenthesis closes

Whether a token goes on is seen from a few characters behind it, and never from those
behind a closing parenthesis.  So a run that ends with one stands apart in front of
every text if it does at the end.
-/

namespace StyleTokens
namespace Css

open Encoding

/-!
## Tests that do not see behind a parenthesis
-/

/-- The test does not see what stands behind a closing parenthesis. -/
def BlindBehind (p : List Char -> Bool) : Prop :=
  forall cs more, p (cs ++ ')' :: more) = p (cs ++ [')'])

theorem head?_closed (cs more : List Char) : (cs ++ ')' :: more).head? = (cs ++ [')']).head? := by
  cases cs <;> rfl

theorem blind_of_head {p : List Char -> Bool} (q : Option Char -> Bool)
    (h : forall cs, p cs = q cs.head?) : BlindBehind p := by
  intro cs more
  rw [h, h, head?_closed]

theorem blind_startsDigit : BlindBehind startsDigit :=
  blind_of_head (fun c => c.any Char.isDigit) fun cs => by cases cs <;> rfl

theorem blind_startsBlank : BlindBehind startsBlank :=
  blind_of_head (fun c => c.any isBlank) fun cs => by cases cs <;> rfl

theorem blind_startsPlainName : BlindBehind startsPlainName :=
  blind_of_head (fun c => c.any isNameStart) fun cs => by cases cs <;> rfl

theorem blind_startsQuote : BlindBehind startsQuote :=
  blind_of_head (fun c => c.any fun c => c == '"' || c == '\'') fun cs => by cases cs <;> rfl

theorem startsEscape_cons (c : Char) (cs : List Char) :
    startsEscape (c :: cs) = (c == '\\' && cs.head? != some '\n') := by
  by_cases hc : c = '\\'
  · subst hc
    cases cs with
    | nil => rfl
    | cons d ds =>
        by_cases hd : d = '\n'
        · subst hd
          rfl
        · simp [startsEscape, hd]
  · simp [startsEscape_of_ne hc, hc]

theorem startsFraction_cons (c : Char) (cs : List Char) :
    startsFraction (c :: cs) = (c == '.' && startsDigit cs) := by
  by_cases hc : c = '.'
  · subst hc
    rfl
  · simp [startsFraction, hc]

theorem startsName_cons (c : Char) (cs : List Char) :
    startsName (c :: cs) =
      if c = '-' then cs.head? == some '-' || startsPlainName cs || startsEscape cs
      else isNameStart c || startsEscape (c :: cs) := by
  by_cases hc : c = '-'
  · subst hc
    cases cs with
    | nil => rfl
    | cons d ds =>
        simp only [startsName, startsPlainName, List.head?_cons, if_pos]
        rw [Bool.or_comm (isNameStart d)]
        rfl
  · rw [if_neg hc]
    cases cs <;> simp [startsName, hc]

theorem blind_startsEscape : BlindBehind startsEscape := by
  intro cs more
  cases cs with
  | nil => rfl
  | cons c cs => simp only [List.cons_append, startsEscape_cons, head?_closed]

theorem blind_startsHashName : BlindBehind startsHashName := by
  intro cs more
  cases cs with
  | nil => rfl
  | cons c cs =>
      have hescape := blind_startsEscape (c :: cs) more
      simp only [List.cons_append, startsHashName] at hescape ⊢
      rw [hescape]

theorem blind_startsFraction : BlindBehind startsFraction := by
  intro cs more
  cases cs with
  | nil => rfl
  | cons c cs => simp only [List.cons_append, startsFraction_cons, blind_startsDigit cs more]

theorem blind_startsName : BlindBehind startsName := by
  intro cs more
  cases cs with
  | nil => rfl
  | cons c cs =>
      have hescape := blind_startsEscape (c :: cs) more
      simp only [List.cons_append] at hescape ⊢
      simp only [startsName_cons, head?_closed, blind_startsPlainName cs more,
        blind_startsEscape cs more, hescape]

theorem blind_startsNumber : BlindBehind startsNumber := by
  intro cs more
  cases cs with
  | nil => rfl
  | cons c cs =>
      have hfraction := blind_startsFraction (c :: cs) more
      simp only [List.cons_append] at hfraction ⊢
      simp only [startsNumber, blind_startsDigit cs more, blind_startsFraction cs more, hfraction]

theorem blind_startsExponent : BlindBehind startsExponent := by
  intro cs more
  rcases cs with _ | ⟨c, _ | ⟨d, cs⟩⟩
  · rfl
  · rfl
  · simp only [List.cons_append, startsExponent, Text.splitSign]
    split
    · simp only [blind_startsDigit cs more]
    · have hdigit := blind_startsDigit (d :: cs) more
      simp only [List.cons_append] at hdigit
      simp only [hdigit]

theorem blind_isPrefixOf {p : List Char} (hp : ')' ∉ p) : BlindBehind p.isPrefixOf := by
  intro cs more
  induction p generalizing cs with
  | nil => rfl
  | cons c p ih =>
      rw [List.mem_cons, not_or] at hp
      cases cs with
      | nil =>
          have hc : (c == ')') = false := by simpa using Ne.symm hp.1
          simp [List.isPrefixOf, hc]
      | cons d cs =>
          show (c == d && p.isPrefixOf (cs ++ ')' :: more)) = (c == d && p.isPrefixOf (cs ++ [')']))
          rw [ih hp.2]

theorem BlindBehind.append {p : List Char -> Bool} (h : BlindBehind p) (front : List Char) :
    BlindBehind fun cs => p (front ++ cs) := by
  intro cs more
  show p (front ++ (cs ++ ')' :: more)) = p (front ++ (cs ++ [')']))
  rw [← List.append_assoc, ← List.append_assoc, h]

theorem BlindBehind.dropWhile_isBlank {p : List Char -> Bool} (h : BlindBehind p) :
    BlindBehind fun cs => p (cs.dropWhile isBlank) := by
  intro cs more
  induction cs with
  | nil => exact h [] more
  | cons c cs ih =>
      cases hc : isBlank c with
      | true =>
          simp only [List.cons_append, List.dropWhile_cons, hc, if_true]
          exact ih
      | false =>
          simp only [List.cons_append, List.dropWhile_cons, hc, Bool.false_eq_true, if_false]
          exact h (c :: cs) more

/-!
## Tokens
-/

theorem blind_goesOnLone (c : Char) : BlindBehind (goesOnLone c) := by
  intro cs more
  unfold goesOnLone
  split
  · exact (blind_startsNumber.append ['+']) cs more
  · exact (blind_startsNumber.append ['.']) cs more
  · have hnumber := (blind_startsNumber.append ['-']) cs more
    have hcdc := ((blind_isPrefixOf (p := ['-', '-', '>']) (by decide)).append ['-']) cs more
    have hname := (blind_startsName.append ['-']) cs more
    simp only [List.cons_append, List.nil_append] at hnumber hcdc hname
    simp only [startsCdc, hnumber, hcdc, hname]
  · exact blind_startsHashName cs more
  · exact blind_startsName cs more
  · exact ((blind_isPrefixOf (p := ['<', '!', '-', '-']) (by decide)).append ['<']) cs more
  · exact ((blind_isPrefixOf (p := ['/', '*']) (by decide)).append ['/']) cs more
  · rfl

theorem blind_goesOn (t : Token) : BlindBehind (goesOn t) := by
  intro cs more
  have hcdc := ((blind_isPrefixOf (p := ['-', '-', '>']) (by decide)).append
    (writeName t.text.toList)) cs more
  simp only at hcdc
  simp only [goesOn, goesOnNumber, goesOnUnit, startsCdc, blind_startsBlank cs more,
    blind_startsHashName cs more, head?_closed, hcdc,
    blind_startsQuote.dropWhile_isBlank cs more, blind_startsDigit cs more,
    blind_startsFraction cs more, blind_startsName cs more]
  split
  · rfl
  · split
    · rfl
    · split
      · rfl
      · split
        · rfl
        · split
          · rfl
          · rename_i unit _
            have hexponent := (blind_startsExponent.append unit.toList) cs more
            simp only at hexponent
            rw [hexponent]
          · exact blind_goesOnLone _ cs more
          · rfl

/-!
## Runs in front of a text
-/

/-- Does no token of the run go on, with a text behind the run? -/
def StandApartBefore : List Token -> List Char -> Prop
  | [], _ => True
  | t :: ts, rest =>
      goesOn t ((Token.runSource ts).toList ++ rest) = false ∧ StandApartBefore ts rest

theorem standApartBefore_nil_iff {ts : List Token} :
    StandApartBefore ts [] ↔ standApart ts = true := by
  induction ts with
  | nil => exact iff_of_true trivial rfl
  | cons t ts ih =>
      rw [StandApartBefore, standApart, List.append_nil, ih, Bool.and_eq_true, Bool.not_eq_true']

theorem standApartBefore_append {ts us : List Token} {rest : List Char} :
    StandApartBefore (ts ++ us) rest ↔
      StandApartBefore ts ((Token.runSource us).toList ++ rest) ∧ StandApartBefore us rest := by
  induction ts with
  | nil => exact (and_iff_right trivial).symm
  | cons t ts ih =>
      rw [List.cons_append, StandApartBefore, StandApartBefore, ih, Token.runSource_append,
        String.toList_append, List.append_assoc, and_assoc]

theorem source_closeParen : (Token.bare closeParen).source.toList = [')'] := by
  decide

theorem StandApartBefore.of_closed {ts : List Token}
    (h : standApart (ts ++ [.bare closeParen]) = true) (rest : List Char) :
    StandApartBefore (ts ++ [.bare closeParen]) rest := by
  rw [← standApartBefore_nil_iff, standApartBefore_append] at h
  rw [standApartBefore_append]
  refine ⟨?_, rfl, trivial⟩
  have hfront := h.1
  clear h
  simp only [Token.runSource_cons, Token.runSource_nil, String.append_empty, source_closeParen,
    List.append_nil, List.singleton_append] at hfront ⊢
  induction ts with
  | nil => trivial
  | cons t ts ih =>
      rcases hfront with ⟨ht, hts⟩
      refine ⟨?_, ih hts⟩
      rw [blind_goesOn]
      exact ht

end Css
end StyleTokens
