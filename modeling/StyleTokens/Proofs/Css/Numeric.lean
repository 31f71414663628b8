import Mathlib.Data.List.TakeWhile
import StyleTokens.Proofs.Css.ReadBack.Apart
import StyleTokens.Proofs.Number.Literal

/-!
# Numbers of style sheets by their grammar

A number starts with the longest mantissa whose point stands in front of a digit.  What
follows this mantissa decides the rest: an exponent belongs to the number, and three forms
make the token faulty.  The reader hands on a literal in normal form, so the text of a
number is never unreadable.
-/

namespace StyleTokens
namespace Css

/-!
## The longest mantissa
-/

/-- Nothing in the text goes on with the mantissa. -/
structure EndsMantissa (m : Mantissa) (rest : List Char) : Prop where
  digit : startsDigit rest = false
  fraction : m.fraction = none -> startsFraction rest = false

theorem startsFraction_iff {cs : List Char} :
    startsFraction cs = true ↔ exists d ds, d.isDigit = true ∧ cs = '.' :: d :: ds := by
  constructor
  · intro h
    unfold startsFraction at h
    split at h
    · rename_i tail
      cases tail with
      | nil => cases h
      | cons d ds => exact ⟨d, ds, h, rfl⟩
    · cases h
  · rintro ⟨d, ds, hd, rfl⟩
    exact hd

theorem startsNumber_eq_splitSign (cs : List Char) :
    startsNumber cs =
      (startsDigit (Text.splitSign cs).2 || startsFraction (Text.splitSign cs).2) := by
  cases cs with
  | nil => rfl
  | cons c cs =>
      rw [startsNumber, Text.splitSign]
      split
      · rfl
      · rfl

theorem takeWhile_ne_nil_of_startsDigit {cs : List Char} (h : startsDigit cs = true) :
    cs.takeWhile Char.isDigit ≠ [] := by
  cases cs with
  | nil => cases h
  | cons d ds =>
      rw [List.takeWhile_cons, if_pos (show d.isDigit = true from h)]
      exact List.cons_ne_nil _ _

/-- Where a number starts, the longest mantissa is a sign, all digits behind it, and all
digits behind a point that stands in front of a digit. -/
theorem exists_mantissa {input : List Char} (h : startsNumber input = true) :
    exists m rest, input = m.text ++ rest ∧ m.IsStrict ∧ EndsMantissa m rest := by
  rw [startsNumber_eq_splitSign] at h
  rcases Sign.exists_text input with ⟨s, -, hinput⟩
  generalize hunsigned : (Text.splitSign input).2 = unsigned at h hinput
  have hspan : unsigned.takeWhile Char.isDigit ++ unsigned.dropWhile Char.isDigit = unsigned :=
    List.takeWhile_append_dropWhile
  have hdigits : forall {cs : List Char}, forall c, c ∈ cs.takeWhile Char.isDigit ->
      c.isDigit = true := fun _ hc => List.mem_takeWhile_imp hc
  have hend : startsDigit (unsigned.dropWhile Char.isDigit) = false := startsDigit_dropWhile _
  cases hfraction : startsFraction (unsigned.dropWhile Char.isDigit) with
  | true =>
      rcases startsFraction_iff.mp hfraction with ⟨d, ds, hd, hpoint⟩
      have hne : (d :: ds).takeWhile Char.isDigit ≠ [] := takeWhile_ne_nil_of_startsDigit hd
      refine ⟨⟨s, unsigned.takeWhile Char.isDigit, some ((d :: ds).takeWhile Char.isDigit), hdigits,
        hdigits, List.append_ne_nil_of_right_ne_nil _ hne⟩,
        (d :: ds).dropWhile Char.isDigit, ?_, ?_, startsDigit_dropWhile _, ?_⟩
      · rw [hpoint] at hspan
        rw [← hinput]
        simp [Mantissa.text, Mantissa.magnitude, Mantissa.pointText, hspan]
      · exact fun hnil => hne (Option.some.inj hnil)
      · exact fun hnone => absurd hnone (Option.some_ne_none _)
  | false =>
      refine ⟨⟨s, unsigned.takeWhile Char.isDigit, none, hdigits, by simp, ?_⟩,
        unsigned.dropWhile Char.isDigit, ?_, Option.some_ne_none _ ∘ Eq.symm, hend,
        fun _ => hfraction⟩
      · -- without digits in front of it the number would start with its point
        rw [Option.getD_none, List.append_nil]
        intro hnil
        rw [hnil, List.nil_append] at hspan
        rw [hspan] at hend hfraction
        rw [hend, hfraction] at h
        cases h
      · rw [← hinput]
        simp [Mantissa.text, Mantissa.magnitude, Mantissa.pointText]

theorem prefix_takeWhile {p : Char -> Bool} {a cs : List Char} (ha : forall c, c ∈ a -> p c = true)
    (h : a <+: cs) : a <+: cs.takeWhile p := by
  rcases h with ⟨tail, rfl⟩
  rw [List.takeWhile_append_of_pos ha]
  exact List.prefix_append a _

theorem EndsMantissa.prefix_pointText {m m' : Mantissa} {rest tail : List Char}
    (h : EndsMantissa m rest) (hstrict : m'.IsStrict)
    (heq : m'.pointText ++ tail = m.pointText ++ rest) : m'.pointText <+: m.pointText := by
  cases hfraction' : m'.fraction with
  | none =>
      rw [Mantissa.pointText_of_none hfraction']
      exact List.nil_prefix
  | some ds' =>
      have hdigits' := Mantissa.isDigit_of_fraction hfraction'
      rw [Mantissa.pointText_of_some hfraction'] at heq ⊢
      cases hfraction : m.fraction with
      | none =>
          -- the other mantissa would go on with a fraction that does not start here
          have hstart : startsFraction ('.' :: (ds' ++ tail)) = true :=
            startsDigit_of_digits (hstrict.ne_nil hfraction') hdigits' tail
          rw [Mantissa.pointText_of_none hfraction, List.nil_append, List.cons_append] at heq
          rw [heq, h.fraction hfraction] at hstart
          cases hstart
      | some ds =>
          rw [Mantissa.pointText_of_some hfraction] at heq ⊢
          have hspan := (span_digits (Mantissa.isDigit_of_fraction hfraction) h.digit).1
          have hfront := prefix_takeWhile hdigits' ⟨tail, (List.cons.inj heq).2⟩
          rw [List.append_eq, hspan] at hfront
          exact List.cons_prefix_cons.mpr ⟨rfl, hfront⟩

theorem EndsMantissa.longest {m : Mantissa} {rest : List Char} (h : EndsMantissa m rest)
    {m' : Mantissa} (hstrict : m'.IsStrict) (hfront : m'.text <+: m.text ++ rest) :
    m'.text <+: m.text := by
  rcases hfront with ⟨tail, heq⟩
  rw [Mantissa.text, Mantissa.text, List.append_assoc, List.append_assoc] at heq
  have hsplit := congrArg Text.splitSign heq
  rw [m'.sign.splitSign_text (m'.unsigned_magnitude tail),
    m.sign.splitSign_text (m.unsigned_magnitude rest)] at hsplit
  rcases Prod.mk.inj hsplit with ⟨hsign, hmagnitude⟩
  rw [Mantissa.text, Mantissa.text, hsign]
  refine (List.prefix_append_right_inj _).mpr ?_
  rcases m.span_magnitude h.digit with ⟨htake, hdrop⟩
  rw [Mantissa.magnitude] at hmagnitude ⊢
  cases hfraction : m'.fraction with
  | none =>
      rw [Mantissa.pointText_of_none hfraction, List.append_nil] at hmagnitude ⊢
      have hwhole := prefix_takeWhile m'.isDigit_of_mem_whole ⟨tail, hmagnitude⟩
      rw [htake] at hwhole
      exact hwhole.trans (List.prefix_append _ _)
  | some ds =>
      -- the point ends the digits in front of it, so that both have the same
      have hend : startsDigit (m'.pointText ++ tail) = false := by
        rw [Mantissa.pointText_of_some hfraction]
        rfl
      rw [List.append_assoc] at hmagnitude
      rcases span_digits m'.isDigit_of_mem_whole hend with ⟨htake', hdrop'⟩
      rw [hmagnitude] at htake' hdrop'
      rw [htake] at htake'
      rw [hdrop] at hdrop'
      rw [← htake', Mantissa.magnitude]
      exact (List.prefix_append_right_inj _).mpr (h.prefix_pointText hstrict hdrop'.symm)

/-!
## What follows the mantissa
-/

/-- The forms behind a mantissa that make a number faulty: a second point, a mark and a
sign without digits, and a point behind the exponent. -/
inductive Spoils : List Char -> Prop where
  | point {d : Char} {cs : List Char} (hd : d.isDigit = true) : Spoils ('.' :: d :: cs)
  | sign {e s : Char} {cs : List Char} (he : e = 'e' ∨ e = 'E') (hs : s = '+' ∨ s = '-')
      (hcs : forall d, cs.head? = some d -> d.isDigit = false) : Spoils (e :: s :: cs)
  | exponent (x : Exponent) {d : Char} {cs : List Char} (hd : d.isDigit = true) :
      Spoils (x.text ++ '.' :: d :: cs)

theorem startsDigit_eq_false_iff {cs : List Char} :
    startsDigit cs = false ↔ forall d, cs.head? = some d -> d.isDigit = false := by
  cases cs with
  | nil => simp [startsDigit]
  | cons c cs => simp [startsDigit]

theorem exponent_append (x : Exponent) (tail : List Char) :
    x.text ++ tail = x.mark :: (x.sign.text ++ (x.digits ++ tail)) := by
  rw [Exponent.text, List.cons_append, List.append_assoc]

theorem startsDigit_of_exponent {x : Exponent} {e : Char} {cs : List Char}
    (h : x.text <+: e :: cs) :
    (e = 'e' ∨ e = 'E') ∧ startsDigit (Text.splitSign cs).2 = true := by
  rcases h with ⟨tail, heq⟩
  rw [exponent_append] at heq
  rcases List.cons.inj heq with ⟨rfl, rfl⟩
  rw [x.splitSign_digits]
  exact ⟨x.mark_eq, startsDigit_of_digits x.digits_ne_nil x.isDigit_of_mem_digits tail⟩

theorem startsExponent_of_exponent {x : Exponent} {rest : List Char} (h : x.text <+: rest) :
    startsExponent rest = true := by
  cases rest with
  | nil => exact absurd (List.prefix_nil.mp h) (List.cons_ne_nil _ _)
  | cons e cs =>
      rcases startsDigit_of_exponent h with ⟨he, hdigit⟩
      rw [startsExponent, hdigit, Bool.true_or, Bool.and_true]
      simpa using he

theorem exponent_tail_unique {x y : Exponent} {a b : List Char} (ha : startsDigit a = false)
    (hb : startsDigit b = false) (h : x.text ++ a = y.text ++ b) : a = b := by
  rw [exponent_append, exponent_append] at h
  have hsplit := congrArg Text.splitSign (List.cons.inj h).2
  rw [x.splitSign_digits, y.splitSign_digits] at hsplit
  have hdrop := congrArg (List.dropWhile Char.isDigit) (Prod.mk.inj hsplit).2
  rwa [(span_digits x.isDigit_of_mem_digits ha).2,
    (span_digits y.isDigit_of_mem_digits hb).2] at hdrop

/-- Behind a mantissa stands an exponent, a mark and a sign without digits, or neither. -/
theorem exponent_cases (rest : List Char) :
    (exists (x : Exponent) (tail : List Char),
        rest = x.text ++ tail ∧ startsDigit tail = false) ∨
      (exists e s tail, (e = 'e' ∨ e = 'E') ∧ (s = '+' ∨ s = '-') ∧ rest = e :: s :: tail ∧
        startsDigit tail = false) ∨
      startsExponent rest = false := by
  cases rest with
  | nil => exact Or.inr (Or.inr rfl)
  | cons e cs =>
      by_cases he : e = 'e' ∨ e = 'E'
      · rcases Sign.exists_text cs with ⟨s, hs, hcs⟩
        generalize hunsigned : (Text.splitSign cs).2 = unsigned at hcs
        cases hdigit : startsDigit unsigned with
        | true =>
            refine Or.inl ⟨⟨e, s, unsigned.takeWhile Char.isDigit, he,
              fun _ hc => List.mem_takeWhile_imp hc, takeWhile_ne_nil_of_startsDigit hdigit⟩,
              unsigned.dropWhile Char.isDigit, ?_, startsDigit_dropWhile _⟩
            rw [exponent_append, List.takeWhile_append_dropWhile, hcs]
        | false =>
            cases s with
            | absent =>
                refine Or.inr (Or.inr ?_)
                rw [startsExponent, hunsigned, hdigit, ← hs]
                simp [Sign.text]
            | plus =>
                refine Or.inr (Or.inl ⟨e, '+', unsigned, he, Or.inl rfl, ?_, hdigit⟩)
                rw [← hcs]
                rfl
            | minus =>
                refine Or.inr (Or.inl ⟨e, '-', unsigned, he, Or.inr rfl, ?_, hdigit⟩)
                rw [← hcs]
                rfl
      · have hmark : (e == 'e' || e == 'E') = false := by simpa using he
        rw [startsExponent, hmark]
        exact Or.inr (Or.inr rfl)

/-!
## The reader
-/

theorem splitFraction_pointText {m : Mantissa} {rest : List Char} (hm : m.IsStrict)
    (h : EndsMantissa m rest) : splitFraction (m.pointText ++ rest) = (m.pointText, rest) := by
  cases hfraction : m.fraction with
  | none =>
      rw [Mantissa.pointText_of_none hfraction, List.nil_append, splitFraction,
        if_neg (by simp [h.fraction hfraction])]
  | some ds =>
      have hdigits := Mantissa.isDigit_of_fraction hfraction
      have hstart : startsFraction ('.' :: (ds ++ rest)) = true :=
        startsDigit_of_digits (hm.ne_nil hfraction) hdigits rest
      rcases span_digits hdigits h.digit with ⟨htake, hdrop⟩
      rw [Mantissa.pointText_of_some hfraction, List.cons_append, splitFraction, if_pos hstart,
        List.drop_succ_cons, List.drop_zero, htake, hdrop]

theorem readNumeral_mantissa {m : Mantissa} {rest : List Char} (hm : m.IsStrict)
    (h : EndsMantissa m rest) :
    readNumeral (m.text ++ rest) =
      if startsFraction rest then
        ⟨m.normal.text, m.fraction.isNone, some .manyPoints, rest.dropWhile Text.isDigitOrPoint⟩
      else readExponent m.normal.text m.fraction.isNone rest := by
  have hsign : Text.splitSign (m.text ++ rest) = (m.sign.text, m.magnitude ++ rest) := by
    rw [Mantissa.text, List.append_assoc, m.sign.splitSign_text (m.unsigned_magnitude rest)]
  have htext : m.sign.text ++ m.filledWhole ++ m.pointText = m.normal.text := by
    rw [Mantissa.text, Mantissa.magnitude, Mantissa.pointText_normal hm, List.append_assoc]
    rfl
  have hempty : m.pointText.isEmpty = m.fraction.isNone := by
    unfold Mantissa.pointText
    cases m.fraction with
    | none => rfl
    | some ds => rfl
  rcases m.span_magnitude h.digit with ⟨htake, hdrop⟩
  rw [← htext, ← hempty]
  simp only [readNumeral, hsign, htake, hdrop, splitFraction_pointText hm h]
  rfl

theorem readExponent_exponent (x : Exponent) {tail : List Char} (h : startsDigit tail = false)
    (text : List Char) (whole : Bool) :
    readExponent text whole (x.text ++ tail) =
      if startsFraction tail then
        ⟨text ++ x.lowered.text, false, some .pointInExponent,
          tail.dropWhile Text.isDigitOrPoint⟩
      else ⟨text ++ x.lowered.text, false, none, tail⟩ := by
  have hstart := startsDigit_of_digits x.digits_ne_nil x.isDigit_of_mem_digits tail
  have htext : text ++ ['e'] ++ x.sign.text ++ x.digits = text ++ x.lowered.text := by
    simp [Exponent.text, Exponent.lowered]
  rcases span_digits x.isDigit_of_mem_digits h with ⟨htake, hdrop⟩
  rw [exponent_append, readExponent, if_pos x.mark_eq]
  simp only [x.splitSign_digits, hstart, htake, hdrop, htext, if_true]

theorem readExponent_sign {e s : Char} {tail : List Char} (he : e = 'e' ∨ e = 'E')
    (hs : s = '+' ∨ s = '-') (h : startsDigit tail = false) (text : List Char) (whole : Bool) :
    readExponent text whole (e :: s :: tail) =
      ⟨text, whole, some .exponentWithoutDigits, tail.dropWhile Text.isDigitOrPoint⟩ := by
  have hsplit : Text.splitSign (s :: tail) = ([s], tail) := by
    rw [Text.splitSign, if_pos hs]
  rw [readExponent, if_pos he]
  simp only [hsplit, h, Bool.false_eq_true, if_false]
  rfl

def formErrors : List LexError := [.manyPoints, .pointInExponent, .exponentWithoutDigits]

theorem not_spoils_exponent {x : Exponent} {tail : List Char} (h : startsDigit tail = false)
    (hfraction : startsFraction tail = false) : ¬Spoils (x.text ++ tail) := by
  intro hspoils
  generalize heq : x.text ++ tail = rest at hspoils
  cases hspoils with
  | point hd =>
      have hmark := (startsDigit_of_exponent ⟨tail, heq⟩).1
      exact absurd hmark (by decide)
  | sign he hs hcs =>
      have hdigit := (startsDigit_of_exponent ⟨tail, heq⟩).2
      rw [Text.splitSign, if_pos hs, startsDigit_eq_false_iff.mpr hcs] at hdigit
      cases hdigit
  | exponent y hd =>
      rw [exponent_tail_unique h rfl heq, startsFraction_iff.mpr ⟨_, _, hd, rfl⟩] at hfraction
      cases hfraction

theorem not_spoils_of_not_starts {rest : List Char} (hfraction : startsFraction rest = false)
    (h : startsExponent rest = false) : ¬Spoils rest := by
  intro hspoils
  cases hspoils with
  | point hd =>
      rw [startsFraction_iff.mpr ⟨_, _, hd, rfl⟩] at hfraction
      cases hfraction
  | @sign e s cs he hs hcs =>
      have hmark : (e == 'e' || e == 'E') = true := by simpa using he
      rw [startsExponent, hmark, Text.splitSign, if_pos hs] at h
      simp at h
  | exponent x hd =>
      rw [startsExponent_of_exponent (List.prefix_append x.text _)] at h
      cases h

theorem readNumeral_cases {m : Mantissa} {rest : List Char} (hm : m.IsStrict)
    (h : EndsMantissa m rest) :
    (Spoils rest ∧ exists e, e ∈ formErrors ∧ (readNumeral (m.text ++ rest)).error = some e) ∨
      (¬Spoils rest ∧ exists l : DecimalLiteral, l.toMantissa = m ∧
        (l.exponent = none ↔ ¬exists x : Exponent, x.text <+: rest) ∧
        (readNumeral (m.text ++ rest)).text = l.normal.text ∧
        (readNumeral (m.text ++ rest)).whole = l.isWhole ∧
        (readNumeral (m.text ++ rest)).error = none) := by
  rw [readNumeral_mantissa hm h]
  cases hfraction : startsFraction rest with
  | true =>
      rcases startsFraction_iff.mp hfraction with ⟨d, ds, hd, rfl⟩
      exact Or.inl ⟨.point hd, .manyPoints, by simp [formErrors], rfl⟩
  | false =>
      rw [if_neg Bool.false_ne_true]
      rcases exponent_cases rest with
        ⟨x, tail, rfl, htail⟩ | ⟨e, s, tail, he, hs, rfl, htail⟩ | hend
      · rw [readExponent_exponent x htail]
        cases hpoint : startsFraction tail with
        | true =>
            rcases startsFraction_iff.mp hpoint with ⟨d, ds, hd, rfl⟩
            exact Or.inl ⟨.exponent x hd, .pointInExponent, by simp [formErrors], rfl⟩
        | false =>
            have hexists : exists y : Exponent, y.text <+: x.text ++ tail :=
              ⟨x, List.prefix_append _ _⟩
            exact Or.inr ⟨not_spoils_exponent htail hpoint, ⟨m, some x⟩, rfl,
              by simp [hexists], rfl, by simp [DecimalLiteral.isWhole], rfl⟩
      · rw [readExponent_sign he hs htail]
        exact Or.inl ⟨.sign he hs (startsDigit_eq_false_iff.mp htail), .exponentWithoutDigits,
          by simp [formErrors], rfl⟩
      · have hnone : ¬exists x : Exponent, x.text <+: rest := by
          rintro ⟨x, hx⟩
          rw [startsExponent_of_exponent hx] at hend
          cases hend
        have htext : DecimalLiteral.text (DecimalLiteral.normal ⟨m, none⟩) = m.normal.text :=
          List.append_nil _
        rw [readExponent_of_not_starts hend, ← htext]
        exact Or.inr ⟨not_spoils_of_not_starts hfraction hend, ⟨m, none⟩, rfl, by simpa using hnone,
          rfl, by simp [DecimalLiteral.isWhole], rfl⟩

/-!
## The token
-/

theorem withUnit_cases (n : Number) (rest : List Char) :
    (withUnit n rest).1.asNumber? = some n ∧ (withUnit n rest).1.is badNumber = false ∧
      (withUnit n rest).1.error = none := by
  unfold withUnit
  split
  · exact ⟨rfl, rfl, rfl⟩
  · split
    · exact ⟨rfl, rfl, rfl⟩
    · split
      · exact ⟨rfl, rfl, rfl⟩
      · exact ⟨rfl, rfl, rfl⟩

theorem readNumeric_of_error {input : List Char} {e : LexError}
    (h : (readNumeral input).error = some e) :
    (readNumeric input).1.is badNumber = true ∧
      (readNumeric input).1.error = some e.message := by
  simp only [readNumeric, h]
  exact ⟨rfl, rfl⟩

theorem readNumeric_of_literal {input : List Char} {l : DecimalLiteral}
    (htext : (readNumeral input).text = l.text) (hwhole : (readNumeral input).whole = l.isWhole)
    (herror : (readNumeral input).error = none) :
    readNumeric input = withUnit l.number (readNumeral input).rest := by
  simp only [readNumeric, herror, htext, hwhole, l.read?_text]
  rfl

theorem pass_of_startsNumber (o : Options) {c : Char} {cs : List Char}
    (h : startsNumber (c :: cs) = true) :
    (dialect.pass o c cs).parts =
      ([(readNumeric (c :: cs)).1], (readNumeric (c :: cs)).2) := by
  by_cases hplus : c = '+'
  · subst hplus
    rw [pass_of_claims (s := plusScanner) (by simp [scanners]) o rfl]
    show ([(readNumberOrDelim _).1], (readNumberOrDelim _).2) = _
    rw [readNumberOrDelim, if_pos h]
  · by_cases hminus : c = '-'
    · subst hminus
      rw [pass_of_claims (s := hyphenScanner) (by simp [scanners]) o rfl]
      show ([(readHyphen _).1], (readHyphen _).2) = _
      rw [readHyphen, if_pos h]
    · by_cases hpoint : c = '.'
      · subst hpoint
        rw [pass_of_claims (s := pointScanner) (by simp [scanners]) o rfl]
        show ([(readNumberOrDelim _).1], (readNumberOrDelim _).2) = _
        rw [readNumberOrDelim, if_pos h]
      · have hdigit : c.isDigit = true := by
          rw [startsNumber, if_neg (not_or.mpr ⟨hplus, hminus⟩), startsFraction_of_ne hpoint,
            Bool.or_false] at h
          exact h
        rw [pass_of_claims (s := digitScanner) (by simp [scanners]) o hdigit]
        rfl

/-- The longest mantissa in front of a text, with what follows it. -/
structure LongestMantissa (input : List Char) (m : Mantissa) (rest : List Char) : Prop where
  input_eq : input = m.text ++ rest
  strict : m.IsStrict
  longest : forall m' : Mantissa, m'.IsStrict -> m'.text <+: input -> m'.text <+: m.text

/-- The token of a number agrees with the grammar: what follows the mantissa decides whether
it is faulty, and its value is an integer exactly if the number has neither point nor exponent
and fits. -/
structure Classified (m : Mantissa) (rest : List Char) (t : Token) : Prop where
  bad_iff : t.is badNumber = true ↔ Spoils rest
  readable : forall text, t.error ≠ some (LexError.unreadableNumber text).message
  number : ¬Spoils rest -> exists n, t.asNumber? = some n ∧ forall v : Int64,
    n = .integer v ↔
      m.fraction = none ∧ (¬exists x : Exponent, x.text <+: rest) ∧ v.toInt = m.signed

theorem message_ne_unreadable {e : LexError} (h : e ∈ formErrors) (text : String) :
    e.message ≠ (LexError.unreadableNumber text).message := by
  intro heq
  have hhead := congrArg (fun s => s.toList.head?) heq
  have hlead : "Unparseable number '".toList = 'U' :: "nparseable number '".toList := by decide
  have hunreadable : (LexError.unreadableNumber text).message.toList.head? = some 'U' := by
    show ("Unparseable number '" ++ text ++ "'").toList.head? = some 'U'
    rw [String.toList_append, String.toList_append, hlead, List.cons_append, List.cons_append,
      List.head?_cons]
  rw [hunreadable] at hhead
  simp only [formErrors, List.mem_cons, List.not_mem_nil, or_false] at h
  rcases h with rfl | rfl | rfl <;> exact absurd hhead (by decide)

theorem classified_readNumeric {m : Mantissa} {rest : List Char} (hm : m.IsStrict)
    (h : EndsMantissa m rest) : Classified m rest (readNumeric (m.text ++ rest)).1 := by
  rcases readNumeral_cases hm h with
    ⟨hspoils, e, he, herror⟩ | ⟨hspoils, l, rfl, hexponent, htext, hwhole, herror⟩
  · rcases readNumeric_of_error herror with ⟨hbad, hmessage⟩
    refine ⟨iff_of_true hbad hspoils, ?_, fun hclean => absurd hspoils hclean⟩
    intro text heq
    rw [hmessage] at heq
    exact message_ne_unreadable he text (Option.some.inj heq)
  · rw [← l.isWhole_normal] at hwhole
    rw [readNumeric_of_literal htext hwhole herror]
    rcases withUnit_cases l.normal.number (readNumeral (l.toMantissa.text ++ rest)).rest with
      ⟨hnumber, hbad, hclean⟩
    refine ⟨iff_of_false (by simp [hbad]) hspoils, ?_, fun _ => ⟨_, hnumber, ?_⟩⟩
    · intro text heq
      rw [hclean] at heq
      cases heq
    · intro v
      rw [l.normal_number_eq_integer_iff, hexponent]

/-- Wherever a number starts, its token is classified by the grammar. -/
theorem pass_classified (o : Options) {c : Char} {cs : List Char}
    (h : startsNumber (c :: cs) = true) :
    exists (m : Mantissa) (rest : List Char) (t : Token),
      LongestMantissa (c :: cs) m rest ∧ (dialect.pass o c cs).tokens = [t] ∧
        Classified m rest t := by
  rcases exists_mantissa h with ⟨m, rest, hinput, hm, hend⟩
  refine ⟨m, rest, (readNumeric (c :: cs)).1, ⟨hinput, hm, ?_⟩, ?_, ?_⟩
  · intro m' hm' hfront
    rw [hinput] at hfront
    exact hend.longest hm' hfront
  · exact congrArg Prod.fst (pass_of_startsNumber o h)
  · rw [hinput]
    exact classified_readNumeric hm hend

theorem pass_classified_signedMark :
    startsNumber ['+', '.', '5', 'e', '-'] = true ∧
      exists (m : Mantissa) (rest : List Char) (t : Token),
        LongestMantissa ['+', '.', '5', 'e', '-'] m rest ∧
          (dialect.pass {} '+' ['.', '5', 'e', '-']).tokens = [t] ∧ Classified m rest t :=
  ⟨rfl, pass_classified {} rfl⟩

end Css
end StyleTokens
