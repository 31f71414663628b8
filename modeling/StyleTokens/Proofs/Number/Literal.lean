import Mathlib.Algebra.Field.Rat
import Mathlib.Data.Nat.Digits.Defs
import Mathlib.Tactic.FieldSimp
import StyleTokens.Number
import StyleTokens.Proofs.Css.ReadBack.Value

/-!
# Literals of numbers

A literal is a sign, digits around an optional point, and an optional exponent.  It
denotes a rational number, by the places of its digits.  The reader of numbers takes
every literal, and makes it an integer exactly if it has neither point nor exponent and
its value fits.  A literal that lacks the digits on one side of its point denotes the same
number as the one with a zero there.
-/

namespace StyleTokens

/-!
## Places
-/

def positional (base : Nat) (value : Char -> Nat) (cs : List Char) : Nat :=
  Nat.ofDigits base (cs.reverse.map value)

def decimalValue (cs : List Char) : Nat := positional 10 (fun c => c.toNat - '0'.toNat) cs

theorem foldl_eq_positional (base : Nat) (value : Char -> Nat) (cs : List Char) :
    cs.foldl (fun n c => base * n + value c) 0 = positional base value cs := by
  rw [positional, Nat.ofDigits_eq_foldr, List.foldr_map, List.foldr_reverse]
  simp only [Nat.cast_id, Nat.add_comm]

theorem decimalNumber_eq (cs : List Char) : Text.decimalNumber cs = decimalValue cs :=
  foldl_eq_positional 10 _ cs

theorem decimalValue_zero_cons (cs : List Char) : decimalValue ('0' :: cs) = decimalValue cs := by
  rw [decimalValue, positional, List.reverse_cons, List.map_append]
  exact Nat.ofDigits_append_zero _

theorem decimalValue_append_zero (cs : List Char) :
    decimalValue (cs ++ ['0']) = 10 * decimalValue cs := by
  rw [decimalValue, positional, List.reverse_append, List.reverse_singleton, List.singleton_append,
    List.map_cons, Nat.ofDigits_cons]
  exact Nat.zero_add _

/-!
## Signs
-/

inductive Sign where
  | absent
  | plus
  | minus
  deriving DecidableEq, Repr

namespace Sign

def text : Sign -> List Char
  | absent => []
  | plus => ['+']
  | minus => ['-']

def isMinus : Sign -> Bool
  | minus => true
  | _ => false

def apply (s : Sign) (n : Nat) : Int := if s.isMinus then -n else n

theorem mem_text {s : Sign} {c : Char} (h : c ∈ s.text) : c = '+' ∨ c = '-' := by
  cases s with
  | absent => cases h
  | plus => exact Or.inl (List.mem_singleton.mp h)
  | minus => exact Or.inr (List.mem_singleton.mp h)

theorem apply_mul (s : Sign) (k n : Nat) : s.apply (k * n) = k * s.apply n := by
  unfold apply
  split
  · rw [Nat.cast_mul, Int.mul_neg]
  · exact Nat.cast_mul k n

end Sign

def Unsigned (cs : List Char) : Prop := forall c, cs.head? = some c -> c ≠ '+' ∧ c ≠ '-'

theorem Unsigned.of_digits {cs : List Char} (hne : cs ≠ [])
    (hcs : forall c, c ∈ cs -> c.isDigit = true) (rest : List Char) : Unsigned (cs ++ rest) := by
  intro c hc
  cases cs with
  | nil => exact absurd rfl hne
  | cons d ds =>
      obtain rfl : d = c := Option.some.inj hc
      exact Css.ne_sign_of_isDigit (hcs d List.mem_cons_self)

namespace Sign

theorem splitSign_text (s : Sign) {cs : List Char} (h : Unsigned cs) :
    Text.splitSign (s.text ++ cs) = (s.text, cs) := by
  cases s with
  | absent =>
      cases cs with
      | nil => rfl
      | cons c cs =>
          show Text.splitSign (c :: cs) = ([], c :: cs)
          rw [Text.splitSign, if_neg (not_or.mpr (h c rfl))]
  | plus => rfl
  | minus => rfl

theorem sign_text (s : Sign) {cs : List Char} (h : Unsigned cs) :
    Numeral.sign (s.text ++ cs) = (s.isMinus, cs) := by
  cases s with
  | absent =>
      show Numeral.sign cs = (false, cs)
      unfold Numeral.sign
      split
      · exact absurd rfl (h '-' rfl).2
      · exact absurd rfl (h '+' rfl).1
      · rfl
  | plus => rfl
  | minus => rfl

theorem exists_text (cs : List Char) :
    exists s : Sign, s.text = (Text.splitSign cs).1 ∧ s.text ++ (Text.splitSign cs).2 = cs := by
  cases cs with
  | nil => exact ⟨absent, rfl, rfl⟩
  | cons c cs =>
      rw [Text.splitSign]
      split
      · rename_i hc
        rcases hc with rfl | rfl
        · exact ⟨plus, rfl, rfl⟩
        · exact ⟨minus, rfl, rfl⟩
      · exact ⟨absent, rfl, rfl⟩

end Sign

/-!
## Literals
-/

/-- A literal without its exponent.  There is a digit before or behind the point. -/
structure Mantissa where
  sign : Sign
  whole : List Char
  /-- The digits behind the point, if there is one. -/
  fraction : Option (List Char)
  isDigit_of_mem_whole : forall c, c ∈ whole -> c.isDigit = true
  isDigit_of_mem_fraction : forall c, c ∈ fraction.getD [] -> c.isDigit = true
  digits_ne_nil : whole ++ fraction.getD [] ≠ []

structure Exponent where
  mark : Char
  sign : Sign
  digits : List Char
  mark_eq : mark = 'e' ∨ mark = 'E'
  isDigit_of_mem_digits : forall c, c ∈ digits -> c.isDigit = true
  digits_ne_nil : digits ≠ []

structure DecimalLiteral extends Mantissa where
  exponent : Option Exponent

namespace Mantissa

def digits (m : Mantissa) : List Char := m.whole ++ m.fraction.getD []

def pointText (m : Mantissa) : List Char :=
  match m.fraction with
  | none => []
  | some ds => '.' :: ds

def magnitude (m : Mantissa) : List Char := m.whole ++ m.pointText

def text (m : Mantissa) : List Char := m.sign.text ++ m.magnitude

def signed (m : Mantissa) : Int := m.sign.apply (decimalValue m.digits)

def IsStrict (m : Mantissa) : Prop := m.fraction ≠ some []

end Mantissa

namespace Exponent

def text (x : Exponent) : List Char := x.mark :: (x.sign.text ++ x.digits)

def value (x : Exponent) : Int := x.sign.apply (decimalValue x.digits)

def lowered (x : Exponent) : Exponent := { x with mark := 'e', mark_eq := Or.inl rfl }

end Exponent

namespace DecimalLiteral

def exponentText (l : DecimalLiteral) : List Char :=
  match l.exponent with
  | none => []
  | some x => x.text

def text (l : DecimalLiteral) : List Char := l.toMantissa.text ++ l.exponentText

def power (l : DecimalLiteral) : Int :=
  match l.exponent with
  | none => 0
  | some x => x.value

def scale (l : DecimalLiteral) : Int := l.power - (l.fraction.getD []).length

def value (l : DecimalLiteral) : Rat := l.signed * (10 : Rat) ^ l.scale

def isWhole (l : DecimalLiteral) : Bool := l.fraction.isNone && l.exponent.isNone

def number (l : DecimalLiteral) : Number :=
  match if l.isWhole then Numeral.int64? l.signed else none with
  | some v => .integer v
  | none => .float (Binary64.ofDecimal l.sign.isMinus (decimalValue l.digits) l.scale)

def lowered (l : DecimalLiteral) : DecimalLiteral :=
  { l with exponent := l.exponent.map Exponent.lowered }

end DecimalLiteral

/-!
## Reading a literal
-/

theorem toLower_of_isDigit {c : Char} (h : c.isDigit = true) : c.toLower = c := by
  have hhigh : c.toNat ≤ 57 := (Css.isDigit_iff.mp h).2
  rcases Text.toLower_cases c with ⟨-, hsame⟩ | ⟨hupper, -⟩
  · exact hsame
  · have hlow := (Text.isUpper_iff.mp hupper).1
    omega

namespace Mantissa

theorem pointText_of_none {m : Mantissa} (h : m.fraction = none) : m.pointText = [] := by
  rw [pointText, h]

theorem pointText_of_some {m : Mantissa} {ds : List Char} (h : m.fraction = some ds) :
    m.pointText = '.' :: ds := by
  rw [pointText, h]

theorem isDigit_of_fraction {m : Mantissa} {ds : List Char} (h : m.fraction = some ds) :
    forall c, c ∈ ds -> c.isDigit = true := by
  have hdigits := m.isDigit_of_mem_fraction
  rwa [h, Option.getD_some] at hdigits

theorem IsStrict.ne_nil {m : Mantissa} (hm : m.IsStrict) {ds : List Char}
    (h : m.fraction = some ds) : ds ≠ [] := by
  rintro rfl
  exact hm h

theorem startsDigit_pointText (m : Mantissa) {rest : List Char}
    (h : Css.startsDigit rest = false) : Css.startsDigit (m.pointText ++ rest) = false := by
  unfold pointText
  split
  · exact h
  · rfl

theorem whole_cases (m : Mantissa) :
    (exists d ds, m.whole = d :: ds ∧ d.isDigit = true) ∨
      (m.whole = [] ∧ exists ds, m.fraction = some ds ∧ ds ≠ []) := by
  have hne := m.digits_ne_nil
  cases hwhole : m.whole with
  | cons d ds => exact Or.inl ⟨d, ds, rfl, m.isDigit_of_mem_whole d (by rw [hwhole]; simp)⟩
  | nil =>
      rw [hwhole, List.nil_append] at hne
      cases hfraction : m.fraction with
      | none =>
          rw [hfraction] at hne
          exact absurd rfl hne
      | some ds =>
          rw [hfraction] at hne
          exact Or.inr ⟨rfl, ds, rfl, hne⟩

theorem magnitude_head (m : Mantissa) :
    exists c cs, m.magnitude = c :: cs ∧ (c = '.' ∨ c.isDigit = true) := by
  rw [magnitude]
  rcases m.whole_cases with ⟨d, ds, hwhole, hd⟩ | ⟨hwhole, ds, hfraction, -⟩
  · rw [hwhole]
    exact ⟨d, _, rfl, Or.inr hd⟩
  · rw [hwhole, pointText_of_some hfraction]
    exact ⟨'.', ds, rfl, Or.inl rfl⟩

theorem unsigned_magnitude (m : Mantissa) (rest : List Char) : Unsigned (m.magnitude ++ rest) := by
  rcases m.magnitude_head with ⟨d, ds, hmagnitude, hd⟩
  intro c hc
  rw [hmagnitude] at hc
  obtain rfl : d = c := Option.some.inj hc
  rcases hd with rfl | hdigit
  · decide
  · exact Css.ne_sign_of_isDigit hdigit

theorem mem_magnitude {m : Mantissa} {c : Char} (h : c ∈ m.magnitude) :
    c.isDigit = true ∨ c = '.' := by
  rcases List.mem_append.mp h with hwhole | hpoint
  · exact Or.inl (m.isDigit_of_mem_whole c hwhole)
  · cases hfraction : m.fraction with
    | none =>
        rw [pointText_of_none hfraction] at hpoint
        cases hpoint
    | some ds =>
        rw [pointText_of_some hfraction] at hpoint
        rcases List.mem_cons.mp hpoint with rfl | hbehind
        · exact Or.inr rfl
        · exact Or.inl (isDigit_of_fraction hfraction c hbehind)

theorem span_magnitude (m : Mantissa) {rest : List Char} (h : Css.startsDigit rest = false) :
    (m.magnitude ++ rest).takeWhile Char.isDigit = m.whole ∧
      (m.magnitude ++ rest).dropWhile Char.isDigit = m.pointText ++ rest := by
  rw [magnitude, List.append_assoc]
  exact Css.span_digits m.isDigit_of_mem_whole (m.startsDigit_pointText h)

theorem fraction_pointText (m : Mantissa) {rest : List Char} (hdigit : Css.startsDigit rest = false)
    (hpoint : rest.head? ≠ some '.') :
    Numeral.fraction (m.pointText ++ rest) = (m.fraction.getD [], rest) := by
  cases hfraction : m.fraction with
  | none =>
      rw [pointText_of_none hfraction, List.nil_append]
      unfold Numeral.fraction
      split
      · exact absurd rfl hpoint
      · rfl
  | some ds =>
      rcases Css.span_digits (isDigit_of_fraction hfraction) hdigit with ⟨htake, hdrop⟩
      rw [pointText_of_some hfraction]
      show (List.takeWhile _ (ds ++ rest), List.dropWhile _ (ds ++ rest)) = (ds, rest)
      rw [htake, hdrop]

end Mantissa

/-!
## Exponents
-/

theorem Numeral.natural?_of_digits {cs : List Char} (hne : cs ≠ [])
    (hcs : forall c, c ∈ cs -> c.isDigit = true) : natural? cs = some (decimalValue cs) := by
  rw [natural?, if_pos ⟨hne, List.all_eq_true.mpr hcs⟩, decimalNumber_eq]

theorem Exponent.splitSign_digits (x : Exponent) (tail : List Char) :
    Text.splitSign (x.sign.text ++ (x.digits ++ tail)) = (x.sign.text, x.digits ++ tail) :=
  x.sign.splitSign_text (Unsigned.of_digits x.digits_ne_nil x.isDigit_of_mem_digits tail)

theorem Exponent.exponent?_text (x : Exponent) : Numeral.exponent? x.text = some x.value := by
  have hunsigned := Unsigned.of_digits x.digits_ne_nil x.isDigit_of_mem_digits []
  rw [List.append_nil] at hunsigned
  have hnatural := Numeral.natural?_of_digits x.digits_ne_nil x.isDigit_of_mem_digits
  simp only [text, Numeral.exponent?, if_pos x.mark_eq, x.sign.sign_text hunsigned, hnatural]
  rfl

/-!
## Whole literals

A literal with neither a point nor an exponent is an integer if it fits into 64 bits; any
other one is the float nearest to its value.
-/

namespace DecimalLiteral

theorem exponentText_head (l : DecimalLiteral) :
    Css.startsDigit l.exponentText = false ∧ l.exponentText.head? ≠ some '.' := by
  unfold exponentText
  split
  · exact ⟨rfl, by simp⟩
  · rename_i x _
    rcases x with ⟨mark, sign, digits, hmark, hdigits, hne⟩
    rcases hmark with rfl | rfl
    · exact ⟨rfl, by simp [Exponent.text]⟩
    · exact ⟨rfl, by simp [Exponent.text]⟩

theorem mem_exponentText {l : DecimalLiteral} {c : Char} (h : c ∈ l.exponentText) :
    c.isDigit = true ∨ c ∈ ['e', 'E', '+', '-'] := by
  unfold exponentText at h
  cases hexponent : l.exponent with
  | none =>
      rw [hexponent] at h
      cases h
  | some x =>
      rw [hexponent] at h
      rcases List.mem_cons.mp h with rfl | hbehind
      · rcases x.mark_eq with hmark | hmark <;> simp [hmark]
      · rcases List.mem_append.mp hbehind with hsign | hdigit
        · rcases x.sign.mem_text hsign with rfl | rfl
          · exact Or.inr (by simp)
          · exact Or.inr (by simp)
        · exact Or.inl (x.isDigit_of_mem_digits c hdigit)

theorem text_eq (l : DecimalLiteral) :
    l.text = l.sign.text ++ (l.magnitude ++ l.exponentText) := by
  rw [text, Mantissa.text, List.append_assoc]

theorem magnitude?_text (l : DecimalLiteral) (negative : Bool) :
    Numeral.magnitude? negative (l.magnitude ++ l.exponentText) =
      Numeral.decimal? negative (l.magnitude ++ l.exponentText) := by
  rcases l.magnitude_head with ⟨c, cs, hmagnitude, hc⟩
  have hhead : c.toLower ≠ 'n' ∧ c.toLower ≠ 'i' := by
    rcases hc with rfl | hdigit
    · decide
    · rw [toLower_of_isDigit hdigit]
      constructor
      · rintro rfl
        cases hdigit
      · rintro rfl
        cases hdigit
  simp only [hmagnitude, List.cons_append, Numeral.magnitude?, List.map_cons, List.cons.injEq,
    hhead.1, hhead.2, false_and, or_self, if_false]

theorem decimal?_text (l : DecimalLiteral) (negative : Bool) :
    Numeral.decimal? negative (l.magnitude ++ l.exponentText) =
      some (Binary64.ofDecimal negative (decimalValue l.digits) l.scale) := by
  rcases l.exponentText_head with ⟨hdigit, hpoint⟩
  rcases l.span_magnitude hdigit with ⟨htake, hdrop⟩
  have hdigits : ¬(l.whole = [] ∧ l.fraction.getD [] = []) := fun h =>
    l.digits_ne_nil (by rw [h.1, h.2]; rfl)
  have hexponent : Numeral.exponent? l.exponentText = some l.power := by
    unfold exponentText power
    split
    · rfl
    · exact Exponent.exponent?_text _
  simp only [Numeral.decimal?, htake, hdrop, l.fraction_pointText hdigit hpoint, if_neg hdigits,
    hexponent, decimalNumber_eq]
  rfl

theorem binary64?_text (l : DecimalLiteral) :
    Numeral.binary64? l.text =
      some (Binary64.ofDecimal l.sign.isMinus (decimalValue l.digits) l.scale) := by
  simp only [Numeral.binary64?, l.text_eq, l.sign.sign_text (l.unsigned_magnitude _),
    l.magnitude?_text, l.decimal?_text]

theorem isWhole_iff (l : DecimalLiteral) :
    l.isWhole = true ↔ l.fraction = none ∧ l.exponent = none := by
  rw [isWhole, Bool.and_eq_true, Option.isNone_iff_eq_none, Option.isNone_iff_eq_none]

theorem integer?_text {l : DecimalLiteral} (h : l.isWhole = true) :
    Numeral.integer? l.text = Numeral.int64? l.signed := by
  rcases l.isWhole_iff.mp h with ⟨hfraction, hexponent⟩
  have hne : l.whole ≠ [] := by
    intro hwhole
    exact l.digits_ne_nil (by rw [hwhole, hfraction]; rfl)
  have hrest : l.magnitude ++ l.exponentText = l.whole := by
    simp [Mantissa.magnitude, Mantissa.pointText, exponentText, hfraction, hexponent]
  have hdigits : l.digits = l.whole := by
    simp [Mantissa.digits, hfraction]
  have hsign := l.sign.sign_text (l.unsigned_magnitude l.exponentText)
  rw [hrest] at hsign
  simp only [Numeral.integer?, l.text_eq, hrest, hsign,
    Numeral.natural?_of_digits hne l.isDigit_of_mem_whole, Mantissa.signed, hdigits]
  rfl

theorem read?_text (l : DecimalLiteral) : Number.read? l.text l.isWhole = some l.number := by
  unfold Number.read? number
  cases hwhole : l.isWhole with
  | false => simp [l.binary64?_text]
  | true =>
      rw [if_pos rfl, if_pos rfl, integer?_text hwhole, l.binary64?_text]
      cases Numeral.int64? l.signed with
      | none => rfl
      | some v => rfl

end DecimalLiteral

theorem Numeral.int64?_eq_some_iff {n : Int} {v : Int64} :
    int64? n = some v ↔ v.toInt = n := by
  constructor
  · intro h
    unfold int64? at h
    split at h
    · rename_i hrange
      obtain rfl : Int64.ofInt n = v := Option.some.inj h
      have hmin : Int64.minValue.toInt = -2 ^ 63 := by decide
      have hmax : Int64.maxValue.toInt = 2 ^ 63 - 1 := by decide
      exact Int64.toInt_ofInt_of_le (by omega) (by omega)
    · cases h
  · rintro rfl
    exact Css.int64?_toInt v

theorem DecimalLiteral.number_eq_integer_iff (l : DecimalLiteral) (v : Int64) :
    l.number = .integer v ↔
      l.fraction = none ∧ l.exponent = none ∧ v.toInt = l.signed := by
  rw [← and_assoc, ← l.isWhole_iff, ← Numeral.int64?_eq_some_iff]
  unfold number
  cases hwhole : l.isWhole with
  | false => simp
  | true =>
      rw [if_pos rfl]
      split
      · rename_i n hn
        simp [hn]
      · rename_i hn
        simp [hn]

/-!
## Zeros beside the point
-/

namespace Mantissa

def filledWhole (m : Mantissa) : List Char := if m.whole = [] then ['0'] else m.whole

def filledFraction (m : Mantissa) : Option (List Char) :=
  m.fraction.map fun ds => if ds = [] then ['0'] else ds

theorem filledWhole_ne_nil (m : Mantissa) : m.filledWhole ≠ [] := by
  unfold filledWhole
  split
  · exact List.cons_ne_nil _ _
  · assumption

theorem isDigit_of_mem_filled {ds : List Char} (h : forall c, c ∈ ds -> c.isDigit = true) (c : Char)
    (hc : c ∈ if ds = [] then ['0'] else ds) : c.isDigit = true := by
  split at hc
  · rw [List.mem_singleton.mp hc]
    rfl
  · exact h c hc

def normal (m : Mantissa) : Mantissa :=
  { sign := m.sign
    whole := m.filledWhole
    fraction := m.filledFraction
    isDigit_of_mem_whole := isDigit_of_mem_filled m.isDigit_of_mem_whole
    isDigit_of_mem_fraction := by
      unfold filledFraction
      cases hfraction : m.fraction with
      | none => simp
      | some ds => exact isDigit_of_mem_filled (isDigit_of_fraction hfraction)
    digits_ne_nil := List.append_ne_nil_of_left_ne_nil m.filledWhole_ne_nil _ }

theorem fraction_normal_eq_none_iff (m : Mantissa) : m.normal.fraction = none ↔ m.fraction = none :=
  Option.map_eq_none_iff

theorem filledFraction_of_isStrict {m : Mantissa} (h : m.IsStrict) :
    m.filledFraction = m.fraction := by
  unfold filledFraction
  cases hfraction : m.fraction with
  | none => rfl
  | some ds => rw [Option.map_some, if_neg (h.ne_nil hfraction)]

theorem pointText_normal {m : Mantissa} (h : m.IsStrict) : m.normal.pointText = m.pointText := by
  have hfraction : m.normal.fraction = m.fraction := filledFraction_of_isStrict h
  rw [pointText, pointText, hfraction]

theorem decimalValue_filledWhole (m : Mantissa) (cs : List Char) :
    decimalValue (m.filledWhole ++ cs) = decimalValue (m.whole ++ cs) := by
  unfold filledWhole
  split
  · rename_i hwhole
    rw [hwhole]
    exact decimalValue_zero_cons cs
  · rfl

theorem signed_normal (m : Mantissa) :
    m.normal.signed = m.sign.apply (decimalValue (m.whole ++ m.filledFraction.getD [])) :=
  congrArg m.sign.apply (m.decimalValue_filledWhole _)

theorem signed_normal_of_isStrict {m : Mantissa} (h : m.IsStrict) : m.normal.signed = m.signed := by
  rw [m.signed_normal, filledFraction_of_isStrict h]
  rfl

end Mantissa

namespace DecimalLiteral

def normal (l : DecimalLiteral) : DecimalLiteral :=
  { l.toMantissa.normal with exponent := l.exponent.map Exponent.lowered }

/-- There are digits in front of the point and behind it, and the mark is small. -/
structure IsNormal (l : DecimalLiteral) : Prop where
  whole : l.whole ≠ []
  fraction : l.fraction ≠ some []
  mark : forall x, l.exponent = some x -> x.mark = 'e'

theorem isNormal_normal (l : DecimalLiteral) : l.normal.IsNormal := by
  refine ⟨l.filledWhole_ne_nil, ?_, ?_⟩
  · intro h
    rcases Option.map_eq_some_iff.mp h with ⟨ds, -, hds⟩
    split at hds
    · cases hds
    · rename_i hne
      exact hne hds
  · intro x hx
    rcases Option.map_eq_some_iff.mp hx with ⟨y, -, rfl⟩
    rfl

theorem exponent_normal_eq_none_iff (l : DecimalLiteral) :
    l.normal.exponent = none ↔ l.exponent = none :=
  Option.map_eq_none_iff

theorem isWhole_normal (l : DecimalLiteral) : l.normal.isWhole = l.isWhole := by
  rw [Bool.eq_iff_iff, isWhole_iff, isWhole_iff, l.exponent_normal_eq_none_iff]
  exact and_congr_left fun _ => l.fraction_normal_eq_none_iff

theorem power_normal (l : DecimalLiteral) : l.normal.power = l.power := by
  unfold power normal
  cases l.exponent with
  | none => rfl
  | some x => rfl

/-- Zeros beside the point change nothing: one behind it multiplies the digits by ten and
moves the last place down by one. -/
theorem value_normal (l : DecimalLiteral) : l.normal.value = l.value := by
  have hscale : l.normal.scale = l.power - (l.filledFraction.getD []).length := by
    rw [scale, l.power_normal]
    rfl
  rw [value, show l.normal.signed = _ from l.signed_normal, hscale]
  by_cases hempty : l.fraction = some []
  · have hfilled : l.filledFraction = some ['0'] := by
      rw [Mantissa.filledFraction, hempty]
      rfl
    have hsigned : l.signed = l.sign.apply (decimalValue l.whole) := by
      rw [Mantissa.signed, Mantissa.digits, hempty, Option.getD_some, List.append_nil]
    have hpower : l.scale = l.power := by
      rw [scale, hempty]
      exact Int.sub_zero _
    rw [hfilled, Option.getD_some, decimalValue_append_zero, Sign.apply_mul, value, hsigned, hpower,
      List.length_singleton, Nat.cast_one, zpow_sub_one₀ (by decide)]
    push_cast
    field_simp
  · rw [Mantissa.filledFraction_of_isStrict hempty]
    rfl

theorem normal_number_eq_integer_iff (l : DecimalLiteral) (v : Int64) :
    l.normal.number = .integer v ↔
      l.fraction = none ∧ l.exponent = none ∧ v.toInt = l.signed := by
  rw [l.normal.number_eq_integer_iff, l.exponent_normal_eq_none_iff]
  refine (and_congr_left fun _ => l.fraction_normal_eq_none_iff).trans ?_
  refine and_congr_right fun hfraction => ?_
  have hstrict : l.IsStrict := by
    rw [Mantissa.IsStrict, hfraction]
    exact Option.some_ne_none _ ∘ Eq.symm
  rw [show l.normal.signed = l.signed from Mantissa.signed_normal_of_isStrict hstrict]

end DecimalLiteral

end StyleTokens
