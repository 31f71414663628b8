import StyleTokens.Proofs.Css.ReadBack.Token

/-!
# Written numbers are read back

The text of every number that is an integer or a finite float has one form: a
sign, digits, and behind them a fraction, an exponent, both or neither.  A text of
this form is read back whole in front of a text that cannot go on with it.
-/

namespace StyleTokens
namespace Css

/-!
## The form of a number
-/

/-- A numeral in its parts.  No fraction is an empty one. -/
structure NumeralParts where
  negative : Bool
  whole : List Char
  fraction : List Char
  exponent : Option Int
  whole_ne_nil : whole ≠ []
  isDigit_of_mem_whole : forall c, c ∈ whole -> c.isDigit = true
  isDigit_of_mem_fraction : forall c, c ∈ fraction -> c.isDigit = true

namespace NumeralParts

def signText (p : NumeralParts) : List Char := if p.negative then ['-'] else []

def fractionText (p : NumeralParts) : List Char :=
  if p.fraction = [] then [] else '.' :: p.fraction

def exponentText (p : NumeralParts) : List Char :=
  match p.exponent with
  | none => []
  | some k => 'e' :: integerText k

def magnitudeText (p : NumeralParts) : List Char :=
  p.whole ++ (p.fractionText ++ p.exponentText)

def text (p : NumeralParts) : List Char := p.signText ++ p.magnitudeText

def isWhole (p : NumeralParts) : Bool := p.fraction.isEmpty && p.exponent.isNone

end NumeralParts

def startsExponent : List Char -> Bool
  | e :: cs =>
      (e == 'e' || e == 'E') &&
        (startsDigit (Text.splitSign cs).2 || !(Text.splitSign cs).1.isEmpty)
  | [] => false

/-- Nothing in the text goes on with the numeral. -/
structure NumeralParts.EndsBefore (p : NumeralParts) (rest : List Char) : Prop where
  digit : startsDigit rest = false
  fraction : startsFraction rest = false
  exponent : p.exponent = none -> startsExponent rest = false

theorem startsDigit_of_digits {cs : List Char} (hne : cs ≠ [])
    (hcs : forall c, c ∈ cs -> c.isDigit = true) (rest : List Char) :
    startsDigit (cs ++ rest) = true := by
  cases cs with
  | nil => exact absurd rfl hne
  | cons c cs => exact hcs c List.mem_cons_self

theorem readExponent_of_not_starts {rest : List Char} (h : startsExponent rest = false)
    (text : List Char) (whole : Bool) :
    readExponent text whole rest = ⟨text, whole, none, rest⟩ := by
  cases rest with
  | nil => rfl
  | cons e cs =>
      by_cases he : e = 'e' ∨ e = 'E'
      · have hmark : (e == 'e' || e == 'E') = true := by simpa using he
        rw [startsExponent, hmark, Bool.true_and, Bool.or_eq_false_iff] at h
        have hsign : ¬(Text.splitSign cs).1 ≠ [] := by simpa using h.2
        simp only [readExponent, if_pos he, h.1, if_neg hsign]
        rfl
      · rw [readExponent, if_neg he]

theorem readExponent_integerText (k : Int) {rest : List Char} (hdigit : startsDigit rest = false)
    (hfraction : startsFraction rest = false) (text : List Char) (whole : Bool) :
    readExponent text whole ('e' :: (integerText k ++ rest)) =
      ⟨text ++ 'e' :: integerText k, false, none, rest⟩ := by
  have hdigits : forall c, c ∈ Nat.toDigits 10 k.natAbs -> c.isDigit = true :=
    fun c hc => isDigit_of_mem_toDigits hc
  have hstart := startsDigit_of_digits (Nat.toDigits_ne_nil (b := 10)) hdigits rest
  rcases span_digits hdigits hdigit with ⟨htake, hdrop⟩
  have htext : text ++ ['e'] ++ (if k < 0 then ['-'] else []) ++ Nat.toDigits 10 k.natAbs =
      text ++ 'e' :: integerText k := by
    unfold integerText
    split <;> simp
  simp only [readExponent, splitSign_integerText, hstart, htake, hdrop, hfraction, htext]
  rfl

namespace NumeralParts

theorem readExponent_exponentText (p : NumeralParts) {rest : List Char} (h : p.EndsBefore rest)
    (text : List Char) :
    readExponent text p.fraction.isEmpty (p.exponentText ++ rest) =
      ⟨text ++ p.exponentText, p.isWhole, none, rest⟩ := by
  unfold exponentText isWhole
  cases hexponent : p.exponent with
  | none =>
      rw [List.nil_append, List.append_nil, readExponent_of_not_starts (h.exponent hexponent)]
      simp
  | some k =>
      rw [List.cons_append, readExponent_integerText k h.digit h.fraction]
      simp

theorem EndsBefore.exponentText {p : NumeralParts} {rest : List Char} (h : p.EndsBefore rest) :
    startsDigit (p.exponentText ++ rest) = false ∧
      startsFraction (p.exponentText ++ rest) = false := by
  unfold NumeralParts.exponentText
  split
  · exact ⟨h.digit, h.fraction⟩
  · exact ⟨rfl, rfl⟩

theorem splitFraction_fractionText (p : NumeralParts) {rest : List Char}
    (hdigit : startsDigit rest = false) (hfraction : startsFraction rest = false) :
    splitFraction (p.fractionText ++ rest) = (p.fractionText, rest) := by
  unfold fractionText
  split
  · rw [List.nil_append, splitFraction, if_neg (by simp [hfraction])]
  · rename_i hne
    rcases span_digits p.isDigit_of_mem_fraction hdigit with ⟨htake, hdrop⟩
    have hstart : startsFraction ('.' :: (p.fraction ++ rest)) = true :=
      startsDigit_of_digits hne p.isDigit_of_mem_fraction rest
    rw [List.cons_append, splitFraction, if_pos hstart, List.drop_succ_cons, List.drop_zero,
      htake, hdrop]

theorem startsDigit_fractionText (p : NumeralParts) {rest : List Char}
    (h : startsDigit rest = false) : startsDigit (p.fractionText ++ rest) = false := by
  unfold fractionText
  split
  · exact h
  · rfl

theorem isEmpty_fractionText (p : NumeralParts) : p.fractionText.isEmpty = p.fraction.isEmpty := by
  unfold fractionText
  split
  · rename_i hnil
    rw [hnil]
  · rename_i hne
    simpa using hne

theorem splitSign_text (p : NumeralParts) (rest : List Char) :
    Text.splitSign (p.text ++ rest) =
      (p.signText, p.whole ++ (p.fractionText ++ (p.exponentText ++ rest))) := by
  have happend : p.text ++ rest =
      p.signText ++ (p.whole ++ (p.fractionText ++ (p.exponentText ++ rest))) := by
    simp [text, magnitudeText]
  rw [happend]
  unfold signText
  split
  · rfl
  · cases hwhole : p.whole with
    | nil => exact absurd hwhole p.whole_ne_nil
    | cons d ds =>
        have hd : d.isDigit = true := p.isDigit_of_mem_whole d (by rw [hwhole]; simp)
        rw [List.nil_append, List.cons_append, Text.splitSign]
        exact if_neg (not_or.mpr (ne_sign_of_isDigit hd))

theorem readNumeral_text_append (p : NumeralParts) {rest : List Char}
    (hdigit : startsDigit (p.exponentText ++ rest) = false)
    (hfraction : startsFraction (p.exponentText ++ rest) = false) :
    readNumeral (p.text ++ rest) =
      readExponent (p.signText ++ p.whole ++ p.fractionText) p.fraction.isEmpty
        (p.exponentText ++ rest) := by
  rcases span_digits p.isDigit_of_mem_whole (p.startsDigit_fractionText hdigit) with
    ⟨htake, hdrop⟩
  simp only [readNumeral, p.splitSign_text, htake, hdrop,
    p.splitFraction_fractionText hdigit hfraction, if_neg p.whole_ne_nil, hfraction,
    Bool.false_eq_true, if_false, p.isEmpty_fractionText]

theorem readNumeral_text (p : NumeralParts) {rest : List Char} (h : p.EndsBefore rest) :
    readNumeral (p.text ++ rest) = ⟨p.text, p.isWhole, none, rest⟩ := by
  have htext : p.signText ++ p.whole ++ p.fractionText ++ p.exponentText = p.text := by
    simp [text, magnitudeText]
  rw [p.readNumeral_text_append h.exponentText.1 h.exponentText.2,
    p.readExponent_exponentText h, htext]

theorem magnitudeText_head (p : NumeralParts) :
    exists d ds, p.magnitudeText = d :: ds ∧ d.isDigit = true := by
  unfold magnitudeText
  cases hwhole : p.whole with
  | nil => exact absurd hwhole p.whole_ne_nil
  | cons d ds => exact ⟨d, _, rfl, p.isDigit_of_mem_whole d (by rw [hwhole]; simp)⟩

theorem text_head (p : NumeralParts) :
    exists c cs, p.text = c :: cs ∧ (c = '-' ∨ c.isDigit = true) := by
  rcases p.magnitudeText_head with ⟨d, ds, hmagnitude, hd⟩
  unfold text signText
  split
  · exact ⟨'-', _, rfl, Or.inl rfl⟩
  · exact ⟨d, ds, hmagnitude, Or.inr hd⟩

theorem startsNumber_text (p : NumeralParts) (rest : List Char) :
    startsNumber (p.text ++ rest) = true := by
  rcases p.magnitudeText_head with ⟨d, ds, hmagnitude, hd⟩
  unfold text signText
  rw [hmagnitude]
  split
  · simp only [List.cons_append, List.nil_append]
    rw [startsNumber, if_pos (Or.inr rfl)]
    exact Bool.or_eq_true_iff.mpr (Or.inl hd)
  · exact startsNumber_of_isDigit _ hd

theorem contains_e_iff (p : NumeralParts) :
    p.text.contains 'e' = false ↔ p.exponent = none := by
  have hdigits : forall {cs : List Char}, (forall c, c ∈ cs -> c.isDigit = true) ->
      'e' ∉ cs := fun hcs he => absurd (hcs 'e' he) (by decide)
  have hsign : 'e' ∉ p.signText := by
    unfold signText
    split <;> decide
  have hfraction : 'e' ∉ p.fractionText := by
    unfold fractionText
    split
    · exact List.not_mem_nil
    · rw [List.mem_cons, not_or]
      exact ⟨by decide, hdigits p.isDigit_of_mem_fraction⟩
  rw [← Bool.not_eq_true, List.contains_iff_mem, text, magnitudeText, List.mem_append,
    List.mem_append, List.mem_append, not_or, not_or, not_or]
  constructor
  · rintro ⟨_, _, _, hexponent⟩
    cases h : p.exponent with
    | none => rfl
    | some k => exact absurd (by simp [exponentText, h]) hexponent
  · intro h
    exact ⟨hsign, hdigits p.isDigit_of_mem_whole, hfraction, by simp [exponentText, h]⟩

/-!
## Every number has the form
-/

def ofNat (negative : Bool) (n : Nat) : NumeralParts :=
  { negative
    whole := Nat.toDigits 10 n
    fraction := []
    exponent := none
    whole_ne_nil := Nat.toDigits_ne_nil
    isDigit_of_mem_whole := fun _ hc => isDigit_of_mem_toDigits hc
    isDigit_of_mem_fraction := fun _ hc => absurd hc List.not_mem_nil }

theorem text_ofNat (n : Int) : (ofNat (n < 0) n.natAbs).text = integerText n := by
  unfold integerText
  split
  · rename_i hn
    simp [text, magnitudeText, signText, fractionText, exponentText, ofNat, hn]
  · rename_i hn
    simp [text, magnitudeText, signText, fractionText, exponentText, ofNat, hn]

/-- A text without sign is that of a float: it has a fraction or an exponent. -/
def IsFloat (cs : List Char) : Prop :=
  forall negative, exists p : NumeralParts,
    p.negative = negative ∧ p.isWhole = false ∧ p.magnitudeText = cs

theorem isFloat_positional {ds : List Char} (hne : ds ≠ [])
    (hds : forall c, c ∈ ds -> c.isDigit = true) (place : Int) :
    IsFloat (Binary64.positional ds place) := by
  intro negative
  have hzeros : forall n c, c ∈ List.replicate n '0' -> c.isDigit = true := by
    intro n c hc
    rw [List.eq_of_mem_replicate hc]
    rfl
  have happend : forall {a b : List Char}, (forall c, c ∈ a -> c.isDigit = true) ->
      (forall c, c ∈ b -> c.isDigit = true) -> forall c, c ∈ a ++ b -> c.isDigit = true := by
    intro a b ha hb c hc
    exact (List.mem_append.mp hc).elim (ha c) (hb c)
  unfold Binary64.positional
  split
  · refine ⟨⟨negative, ['0'], List.replicate place.natAbs '0' ++ ds, none, by simp, hzeros 1,
      happend (hzeros _) hds⟩, rfl, ?_, ?_⟩
    · simp [isWhole, hne]
    · simp [magnitudeText, fractionText, exponentText, hne]
  · split
    · rename_i hpos hlt
      refine ⟨⟨negative, ds.take place.natAbs, ds.drop place.natAbs, none, ?_, ?_, ?_⟩,
        rfl, ?_, ?_⟩
      · rw [← List.length_pos_iff, List.length_take]
        omega
      · exact fun c hc => hds c (List.mem_of_mem_take hc)
      · exact fun c hc => hds c (List.mem_of_mem_drop hc)
      · simp [isWhole, hlt]
      · simp [magnitudeText, fractionText, exponentText, hlt]
    · refine ⟨⟨negative, ds ++ List.replicate (place.natAbs - ds.length) '0', ['0'], none,
        by simp [hne], happend hds (hzeros _), hzeros 1⟩, rfl, ?_, ?_⟩
      · simp [isWhole]
      · simp [magnitudeText, fractionText, exponentText]

theorem isFloat_scientific {ds : List Char} (hne : ds ≠ [])
    (hds : forall c, c ∈ ds -> c.isDigit = true) (place : Int) :
    IsFloat (Binary64.scientific ds place) := by
  intro negative
  cases ds with
  | nil => exact absurd rfl hne
  | cons d ds =>
      have hexponent : (toString (place - 1)).toList = integerText (place - 1) :=
        toList_toString_int (place - 1)
      refine ⟨⟨negative, [d], ds, some (place - 1), by simp, ?_, ?_⟩, rfl, ?_, ?_⟩
      · intro c hc
        rw [List.mem_singleton.mp hc]
        exact hds d List.mem_cons_self
      · exact fun c hc => hds c (List.mem_cons_of_mem d hc)
      · simp [isWhole]
      · unfold Binary64.scientific
        rw [hexponent]
        cases ds with
        | nil => rfl
        | cons e ds => simp [magnitudeText, fractionText, exponentText]

theorem isFloat_decimal (d : Binary64.Decimal) : IsFloat d.text := by
  have hds : forall c, c ∈ Nat.toDigits 10 d.digits -> c.isDigit = true :=
    fun c hc => isDigit_of_mem_toDigits hc
  unfold Binary64.Decimal.text
  split
  · exact fun negative => ⟨⟨negative, ['0'], ['0'], none, by simp, by simp, by simp⟩, rfl, rfl, rfl⟩
  · dsimp only
    split
    · exact isFloat_positional Nat.toDigits_ne_nil hds _
    · exact isFloat_scientific Nat.toDigits_ne_nil hds _

end NumeralParts

/-- The number is an integer, or a finite float that its text names. -/
def Printed : Number -> Prop
  | .integer _ => True
  | .float x => x.isFinite = true ∧ StyleTokens.Numeral.binary64? x.text.toList = some x

theorem exists_parts {n : Number} (h : Printed n) :
    exists p : NumeralParts, n.text.toList = p.text ∧ Number.read? p.text p.isWhole = some n := by
  cases n with
  | integer n =>
      refine ⟨.ofNat (n.toInt < 0) n.toInt.natAbs, ?_, ?_⟩
      · rw [NumeralParts.text_ofNat]
        exact toList_toString_int n.toInt
      · rw [NumeralParts.text_ofNat]
        simp [Number.read?, integer?_integerText, NumeralParts.isWhole, NumeralParts.ofNat]
  | float x =>
      rcases h with ⟨hfinite, hread⟩
      cases x with
      | nan => cases hfinite
      | infinite => cases hfinite
      | finite negative m q =>
          rcases NumeralParts.isFloat_decimal (Binary64.shortest m q) negative with
            ⟨p, rfl, hwhole, hmagnitude⟩
          have hsource : (Binary64.text (.finite p.negative m q)).toList = p.text := by
            rw [Binary64.text, String.toList_ofList, ← hmagnitude]
            rfl
          refine ⟨p, hsource, ?_⟩
          rw [hsource] at hread
          simp [Number.read?, hwhole, hread]

theorem readNumeric_parts {n : Number} {p : NumeralParts} {rest : List Char}
    (hread : Number.read? p.text p.isWhole = some n) (h : p.EndsBefore rest) :
    readNumeric (p.text ++ rest) = withUnit n rest := by
  simp only [readNumeric, p.readNumeral_text h, hread]
  rfl

theorem pass_parts (o : Options) (p : NumeralParts) (rest : List Char) {c : Char}
    {cs : List Char} (hinput : p.text ++ rest = c :: cs) :
    (dialect.pass o c cs).parts =
      ([(readNumeric (p.text ++ rest)).1], (readNumeric (p.text ++ rest)).2) := by
  have hnumber := p.startsNumber_text rest
  rcases p.text_head with ⟨d, ds, htext, hd⟩
  have hc : d = c := by
    rw [htext] at hinput
    exact (List.cons.inj hinput).1
  rw [hinput] at hnumber ⊢
  rw [hc] at hd
  rcases hd with rfl | hdigit
  · rw [pass_of_claims (s := hyphenScanner) (by simp [scanners]) o rfl]
    show ([(readHyphen _).1], (readHyphen _).2) = _
    rw [readHyphen, if_pos hnumber]
  · rw [pass_of_claims (s := digitScanner) (by simp [scanners]) o hdigit]
    rfl

end Css
end StyleTokens
