import Mathlib.Data.List.TakeWhile
import StyleTokens.Proofs.Json5.ReadBack
import StyleTokens.Proofs.Number.Literal

/-!
# Numbers of data documents by their grammar

A document that is one number is read as one token.  A decimal literal is read with the
number it denotes: the zeros that are put beside its point do not change it.  A hexadecimal
literal is read as an integer, but for the least one of 64 bits, whose magnitude does not
fit without its sign.
-/

namespace StyleTokens
namespace Json5

/-!
## A document that is one number
-/

def numberToken : Except LexError Number -> Token
  | .ok n => .of number (.number n)
  | .error e => (Token.bare badNumber).withError e.message

theorem readNumeric_eq (input : List Char) :
    readNumeric input = (numberToken (readNumber input).result, (readNumber input).rest) := by
  simp only [readNumeric]
  split
  · rename_i n hn
    rw [hn]
    rfl
  · rename_i e he
    rw [he]
    rfl

theorem tokenize_number (o : Options) {cs : List Char} {r : Except LexError Number}
    (h : startsNumber cs = true) (hread : readNumber cs = ⟨r, []⟩) :
    tokenize o (String.ofList cs) =
      [(numberToken r).placed .start, Token.eof.placed (Location.start.past cs)] := by
  cases cs with
  | nil => cases h
  | cons c cs =>
      have hscan : (numberScanner.scan o (c :: cs)).parts = ([numberToken r], []) := by
        show ([(readNumeric (c :: cs)).1], (readNumeric (c :: cs)).2) = _
        rw [readNumeric_eq, hread]
      exact Dialect.tokenize_of_parts (String.toList_ofList)
        (Dialect.pass_of_find (find?_number h) hscan (Nat.zero_le _))

theorem readNumber_unnamed (s : Sign) {c : Char} {cs : List Char} (h : Unsigned (c :: cs))
    (hinfinity : 'I' ≠ c) (hnan : 'N' ≠ c) :
    readNumber (s.text ++ c :: cs) =
      if startsHexadecimal (c :: cs) then readHexadecimal s.text ((c :: cs).drop 2)
      else readDecimal s.text (c :: cs) := by
  simp only [readNumber, s.splitSign_text h]
  rw [if_neg, if_neg]
  · rw [Bool.not_eq_true]
    exact isPrefixOf_of_ne hnan _ _
  · rw [Bool.not_eq_true]
    exact isPrefixOf_of_ne hinfinity _ _

theorem startsNumber_sign_text (s : Sign) {c : Char} {cs : List Char}
    (h : c = '.' ∨ c.isDigit = true) : startsNumber (s.text ++ c :: cs) = true := by
  cases s with
  | absent =>
      rcases h with rfl | hdigit
      · rfl
      · show startsNumber (c :: cs) = true
        simp [startsNumber, hdigit]
  | plus => rfl
  | minus => rfl

/-!
## Hexadecimal literals
-/

structure HexLiteral where
  sign : Sign
  mark : Char
  digits : List Char
  mark_eq : mark = 'x' ∨ mark = 'X'
  isHexDigit_of_mem_digits : forall c, c ∈ digits -> Text.isHexDigit c = true
  digits_ne_nil : digits ≠ []

namespace HexLiteral

def text (p : HexLiteral) : List Char := p.sign.text ++ '0' :: p.mark :: p.digits

def magnitude (p : HexLiteral) : Nat := positional 16 Text.hexValue p.digits

def value (p : HexLiteral) : Int := p.sign.apply p.magnitude

/-- What the literal is read as.  The magnitude has to fit before the sign is applied. -/
def outcome (p : HexLiteral) : Except LexError Number :=
  if Int64.maxValue.toInt < p.magnitude then
    .error (.unreadableNumber (String.ofList (p.sign.text ++ ['0', 'x'] ++ p.digits)))
  else .ok (.integer (Int64.ofInt p.value))

end HexLiteral

theorem readHexadecimal_digits (p : HexLiteral) :
    readHexadecimal p.sign.text p.digits = ⟨p.outcome, []⟩ := by
  have htake : p.digits.takeWhile Text.isHexDigit = p.digits :=
    List.takeWhile_eq_self_iff.mpr p.isHexDigit_of_mem_digits
  have hdrop : p.digits.dropWhile Text.isHexDigit = [] :=
    List.dropWhile_eq_nil_iff.mpr p.isHexDigit_of_mem_digits
  have hnumber : Text.hexNumber p.digits = p.magnitude := foldl_eq_positional 16 _ _
  have hsign : (if p.sign.text = ['-'] then -(p.magnitude : Int) else p.magnitude) = p.value := by
    unfold HexLiteral.value Sign.apply
    cases p.sign with
    | absent => rfl
    | plus => rfl
    | minus => rfl
  simp only [readHexadecimal, HexLiteral.outcome, htake, hdrop, hnumber, hsign, p.digits_ne_nil,
    false_or]
  split
  · rfl
  · rfl

theorem tokenize_hexLiteral (o : Options) (p : HexLiteral) :
    tokenize o (String.ofList p.text) =
      [(numberToken p.outcome).placed .start, Token.eof.placed (Location.start.past p.text)] := by
  have hunsigned : Unsigned ('0' :: p.mark :: p.digits) := by
    intro c hc
    obtain rfl : '0' = c := Option.some.inj hc
    decide
  have hhex : startsHexadecimal ('0' :: p.mark :: p.digits) = true := by
    rcases p with ⟨sign, mark, digits, rfl | rfl, hdigits, hne⟩
    · rfl
    · rfl
  refine tokenize_number o (startsNumber_sign_text p.sign (Or.inr rfl)) ?_
  rw [HexLiteral.text, readNumber_unnamed p.sign hunsigned (by decide) (by decide), if_pos hhex]
  exact readHexadecimal_digits p

/-- Of the integers of 64 bits the least one alone has a magnitude that does not fit. -/
theorem magnitude_exceeds_iff {p : HexLiteral} {v : Int64} (h : v.toInt = p.value) :
    Int64.maxValue.toInt < p.magnitude ↔ v = Int64.minValue := by
  have hmax : Int64.maxValue.toInt = 2 ^ 63 - 1 := by decide
  have hmin : Int64.minValue.toInt = -2 ^ 63 := by decide
  have hlow := v.minValue_le_toInt
  have hhigh := v.toInt_le
  rw [← Int64.toInt_inj, h, hmax, hmin]
  unfold HexLiteral.value Sign.apply at h ⊢
  split
  · rename_i hminus
    rw [if_pos hminus] at h
    omega
  · rename_i hminus
    rw [if_neg hminus] at h
    omega

/-- A hexadecimal literal whose value fits is one number with this value, unless the value is
the least one: its magnitude does not fit. -/
theorem tokenize_hexadecimal (o : Options) (p : HexLiteral) {v : Int64} (h : v.toInt = p.value) :
    (v ≠ Int64.minValue ->
      tokenize o (String.ofList p.text) =
        [(Token.of number (.number (.integer v))).placed .start,
          Token.eof.placed (Location.start.past p.text)]) ∧
      (v = Int64.minValue ->
        tokenize o (String.ofList p.text) =
          [((Token.bare badNumber).withError
              (LexError.unreadableNumber
                (String.ofList (p.sign.text ++ ['0', 'x'] ++ p.digits))).message).placed .start,
            Token.eof.placed (Location.start.past p.text)]) := by
  rw [tokenize_hexLiteral, HexLiteral.outcome]
  constructor
  · intro hv
    rw [if_neg (mt (magnitude_exceeds_iff h).mp hv), ← h, Int64.ofInt_toInt]
    rfl
  · intro hv
    rw [if_pos ((magnitude_exceeds_iff h).mpr hv)]
    rfl

def paddedHex : HexLiteral :=
  { sign := .minus
    mark := 'X'
    digits := ['0', '0', '7', 'f']
    mark_eq := Or.inr rfl
    isHexDigit_of_mem_digits := List.all_eq_true.mp rfl
    digits_ne_nil := List.cons_ne_nil _ _ }

def leastHex : HexLiteral :=
  { sign := .minus
    mark := 'x'
    digits := '8' :: List.replicate 15 '0'
    mark_eq := Or.inl rfl
    isHexDigit_of_mem_digits := List.all_eq_true.mp rfl
    digits_ne_nil := List.cons_ne_nil _ _ }

theorem tokenize_hexadecimal_padded :
    Int64.toInt (-127) = paddedHex.value ∧
      tokenize {} (String.ofList ['-', '0', 'X', '0', '0', '7', 'f']) =
        [(Token.of number (.number (.integer (-127)))).placed .start,
          Token.eof.placed ⟨1, 8, 7⟩] ∧
      Int64.minValue.toInt = leastHex.value ∧
      tokenize {} (String.ofList leastHex.text) =
        [((Token.bare badNumber).withError
            (LexError.unreadableNumber (String.ofList leastHex.text)).message).placed .start,
          Token.eof.placed (Location.start.past leastHex.text)] :=
  ⟨by decide, (tokenize_hexadecimal {} paddedHex (v := -127) (by decide)).1 (by decide),
    by decide, (tokenize_hexadecimal {} leastHex (by decide)).2 rfl⟩

theorem tokenize_hexadecimal_least :
    leastHex.value = Int64.minValue.toInt ∧
      tokenize {} (String.ofList leastHex.text) ≠
        [(Token.of number (.number (.integer Int64.minValue))).placed .start,
          Token.eof.placed (Location.start.past leastHex.text)] := by
  refine ⟨by decide, ?_⟩
  rw [tokenize_hexLiteral, HexLiteral.outcome, if_pos (by decide)]
  intro heq
  have hkind : badNumber = number := congrArg Token.kind (List.cons.inj heq).1
  exact absurd hkind (Kind.ne_of_same (by decide))

/-!
## Zeros beside the point
-/

theorem point_not_mem_exponentText (l : DecimalLiteral) : '.' ∉ l.exponentText := by
  intro h
  rcases l.mem_exponentText h with hdigit | hmark
  · cases hdigit
  · exact absurd hmark (by decide)

theorem replaceAll_signPoint_of_not_mem {g : Char} {a x : List Char} (replacement : List Char)
    (ha : g ∉ a) (hx : '.' ∉ x) :
    Text.replaceAll [g, '.'] replacement (a ++ x) = a ++ x := by
  rw [Text.replaceAll_append_of_not_mem replacement ha,
    Text.replaceAll_of_not_mem replacement (by simp) hx]

theorem sign_not_mem_magnitude (m : Mantissa) {g : Char} (hg : g = '+' ∨ g = '-') :
    g ∉ m.magnitude := by
  intro h
  rcases m.mem_magnitude h with hdigit | rfl
  · rcases hg with rfl | rfl <;> cases hdigit
  · exact absurd hg (by decide)

theorem point_not_mem_digits {ds x : List Char} (hds : forall c, c ∈ ds -> c.isDigit = true)
    (hx : '.' ∉ x) : '.' ∉ ds ++ x := by
  rw [List.mem_append, not_or]
  exact ⟨fun hmem => absurd (hds '.' hmem) (by decide), hx⟩

theorem replaceAll_sign {m : Mantissa} {g : Char} (hg : g = '+' ∨ g = '-') {x : List Char}
    (hx : '.' ∉ x) :
    Text.replaceAll [g, '.'] [g, '0', '.'] (g :: (m.magnitude ++ x)) =
      g :: (m.filledWhole ++ m.pointText ++ x) := by
  rcases m.whole_cases with ⟨d, ds, hwhole, hd⟩ | ⟨hwhole, ds, hfraction, -⟩
  · have hhead : (m.magnitude ++ x).head? ≠ some '.' := by
      rw [Mantissa.magnitude, hwhole]
      intro hdot
      obtain rfl : d = '.' := Option.some.inj hdot
      cases hd
    have hfilled : m.filledWhole = m.whole := if_neg (by simp [hwhole])
    rw [Text.replaceAll_cons_of_head _ hhead,
      replaceAll_signPoint_of_not_mem _ (sign_not_mem_magnitude m hg) hx, hfilled]
    rfl
  · have hds : '.' ∉ ds ++ x := point_not_mem_digits (Mantissa.isDigit_of_fraction hfraction) hx
    have hrest : Text.replaceAll [g, '.'] [g, '0', '.'] (ds ++ x) = ds ++ x :=
      Text.replaceAll_of_not_mem _ (by simp) hds
    rw [Mantissa.magnitude, Mantissa.filledWhole, if_pos hwhole, hwhole,
      Mantissa.pointText_of_some hfraction]
    exact (Text.replaceAll_pattern _ _).trans (congrArg _ hrest)

theorem sign_not_mem_filled (m : Mantissa) {g : Char} (hg : g = '+' ∨ g = '-') :
    g ∉ m.filledWhole ++ m.pointText := by
  have hbody := sign_not_mem_magnitude m hg
  unfold Mantissa.filledWhole
  split
  · rename_i hwhole
    have hzero : g ≠ '0' := by
      rcases hg with rfl | rfl <;> decide
    rw [Mantissa.magnitude, hwhole, List.nil_append] at hbody
    exact List.not_mem_cons_of_ne_of_not_mem hzero hbody
  · exact hbody

theorem isPrefixOf_point_magnitude (m : Mantissa) (x : List Char) :
    ['.'].isPrefixOf (m.magnitude ++ x) = true ↔ m.whole = [] := by
  rw [Mantissa.magnitude]
  rcases m.whole_cases with ⟨d, ds, hwhole, hd⟩ | ⟨hwhole, ds, hfraction, -⟩
  · have hne : '.' ≠ d := by
      rintro rfl
      cases hd
    rw [hwhole]
    simp [hne]
  · rw [hwhole, Mantissa.pointText_of_some hfraction]
    simp

theorem withLeadingZero_text (m : Mantissa) {x : List Char} (hx : '.' ∉ x) :
    withLeadingZero (m.text ++ x) = m.sign.text ++ (m.filledWhole ++ m.pointText ++ x) := by
  have hplus := sign_not_mem_magnitude m (Or.inl rfl)
  have hminus := sign_not_mem_magnitude m (Or.inr rfl)
  unfold Mantissa.text
  cases m.sign with
  | absent =>
      simp only [Sign.text, List.nil_append, withLeadingZero,
        replaceAll_signPoint_of_not_mem _ hminus hx, replaceAll_signPoint_of_not_mem _ hplus hx,
        isPrefixOf_point_magnitude, Mantissa.filledWhole]
      split
      · rename_i hwhole
        rw [Mantissa.magnitude, hwhole]
        rfl
      · rfl
  | plus =>
      have hfirst : Text.replaceAll ['-', '.'] ['-', '0', '.'] ('+' :: m.magnitude ++ x) = _ :=
        replaceAll_signPoint_of_not_mem _ (List.not_mem_cons_of_ne_of_not_mem (by decide) hminus) hx
      show withLeadingZero ('+' :: m.magnitude ++ x) = _
      rw [withLeadingZero, hfirst, List.cons_append, replaceAll_sign (Or.inl rfl) hx]
      rfl
  | minus =>
      have hsecond : Text.replaceAll ['+', '.'] ['+', '0', '.']
          ('-' :: (m.filledWhole ++ m.pointText) ++ x) = _ :=
        replaceAll_signPoint_of_not_mem _
          (List.not_mem_cons_of_ne_of_not_mem (by decide) (sign_not_mem_filled m (Or.inl rfl))) hx
      show withLeadingZero ('-' :: (m.magnitude ++ x)) = _
      rw [withLeadingZero, replaceAll_sign (Or.inr rfl) hx]
      rw [List.cons_append] at hsecond
      rw [hsecond]
      rfl

theorem not_isSuffixOf_point {b x : List Char} (hx : '.' ∉ x) (hne : x ≠ []) :
    ¬['.'].isSuffixOf (b ++ x) = true := by
  rw [List.isSuffixOf_iff_suffix]
  rintro ⟨t, ht⟩
  have hlast := congrArg List.getLast? ht
  rw [List.getLast?_append_of_ne_nil _ hne, List.getLast?_concat] at hlast
  exact hx (List.mem_of_getLast? hlast.symm)

theorem withTrailingZero_point {a ds x : List Char} (ha : '.' ∉ a)
    (hds : forall c, c ∈ ds -> c.isDigit = true) (hx : '.' ∉ x)
    (hmark : x = [] ∨ exists y, x = 'e' :: y) :
    withTrailingZero (a ++ '.' :: (ds ++ x)) =
      a ++ '.' :: ((if ds = [] then ['0'] else ds) ++ x) := by
  have htail : '.' ∉ ds ++ x := point_not_mem_digits hds hx
  rw [withTrailingZero]
  by_cases hempty : ds ++ x = []
  · rcases List.append_eq_nil_iff.mp hempty with ⟨rfl, rfl⟩
    have hend : ['.'].isSuffixOf (a ++ ['.']) = true := by
      rw [List.isSuffixOf_iff_suffix]
      exact List.suffix_append a ['.']
    rw [List.append_nil, if_pos hend, if_pos rfl, List.append_assoc]
    rfl
  · have hend := not_isSuffixOf_point (b := a ++ ['.']) htail hempty
    rw [List.append_assoc, List.singleton_append] at hend
    rw [if_neg hend, Text.replaceAll_append_of_not_mem _ ha]
    cases ds with
    | nil =>
        rcases hmark with rfl | ⟨y, rfl⟩
        · exact absurd rfl hempty
        · have hy : '.' ∉ y := fun h => hx (List.mem_cons_of_mem _ h)
          have hrest : Text.replaceAll ['.', 'e'] ['.', '0', 'e'] y = y :=
            Text.replaceAll_of_not_mem _ (by simp) hy
          exact congrArg (a ++ ·) ((Text.replaceAll_pattern _ y).trans (congrArg _ hrest))
    | cons d ds =>
        have hhead : (d :: ds ++ x).head? ≠ some 'e' := by
          intro hmem
          obtain rfl : d = 'e' := Option.some.inj hmem
          exact absurd (hds 'e' List.mem_cons_self) (by decide)
        rw [Text.replaceAll_cons_of_head _ hhead, if_neg (List.cons_ne_nil _ _),
          Text.replaceAll_of_not_mem _ (by simp) htail]

theorem withTrailingZero_text (m : Mantissa) {a x : List Char} (ha : '.' ∉ a) (hx : '.' ∉ x)
    (hmark : x = [] ∨ exists y, x = 'e' :: y) :
    withTrailingZero (a ++ m.pointText ++ x) = a ++ m.normal.pointText ++ x := by
  cases hfraction : m.fraction with
  | none =>
      rw [Mantissa.pointText_of_none hfraction,
        Mantissa.pointText_of_none (m.fraction_normal_eq_none_iff.mpr hfraction), List.append_nil]
      exact withTrailingZero_of_not_mem (by simp [ha, hx])
  | some ds =>
      have hnormal : m.normal.fraction = some (if ds = [] then ['0'] else ds) :=
        (congrArg (Option.map _) hfraction).trans rfl
      rw [Mantissa.pointText_of_some hfraction, Mantissa.pointText_of_some hnormal,
        List.append_assoc, List.append_assoc]
      exact withTrailingZero_point ha (Mantissa.isDigit_of_fraction hfraction) hx hmark

/-- The zeros that are put beside the point make the literal normal. -/
theorem withZeros_lowered (l : DecimalLiteral) : withZeros l.lowered.text = l.normal.text := by
  have hexponent : '.' ∉ l.lowered.exponentText := point_not_mem_exponentText _
  have hmark : l.lowered.exponentText = [] ∨ exists y, l.lowered.exponentText = 'e' :: y := by
    unfold DecimalLiteral.exponentText DecimalLiteral.lowered
    cases l.exponent with
    | none => exact Or.inl rfl
    | some x => exact Or.inr ⟨_, rfl⟩
  have hlead : '.' ∉ l.sign.text ++ l.filledWhole := by
    have hwhole : '.' ∉ l.filledWhole := fun h =>
      absurd (l.toMantissa.normal.isDigit_of_mem_whole '.' h) (by decide)
    have hsign : '.' ∉ l.sign.text := fun h => absurd (l.sign.mem_text h) (by decide)
    rw [List.mem_append, not_or]
    exact ⟨hsign, hwhole⟩
  have hled : withLeadingZero (l.toMantissa.text ++ l.lowered.exponentText) =
      l.sign.text ++ l.filledWhole ++ l.pointText ++ l.lowered.exponentText := by
    rw [withLeadingZero_text l.toMantissa hexponent]
    simp
  have htext : l.sign.text ++ l.filledWhole ++ l.toMantissa.normal.pointText =
      l.toMantissa.normal.text := by
    rw [Mantissa.text, Mantissa.magnitude, List.append_assoc]
    rfl
  show withTrailingZero (withLeadingZero (l.toMantissa.text ++ l.lowered.exponentText)) =
    l.toMantissa.normal.text ++ l.lowered.exponentText
  rw [hled, withTrailingZero_text l.toMantissa hlead hexponent hmark, htext]

/-!
## Decimal literals
-/

theorem not_startsHexadecimal (l : DecimalLiteral) :
    startsHexadecimal (l.magnitude ++ l.exponentText) = false := by
  rw [Bool.eq_false_iff]
  intro hhex
  rcases startsHexadecimal_cases hhex with ⟨x, tail, hx, heq⟩
  have hmem : x ∈ l.magnitude ++ l.exponentText := by
    rw [heq]
    simp
  rcases List.mem_append.mp hmem with hmagnitude | hexponent
  · rcases l.mem_magnitude hmagnitude with hdigit | rfl
    · rcases hx with rfl | rfl <;> cases hdigit
    · exact absurd hx (by decide)
  · rcases l.mem_exponentText hexponent with hdigit | hmark
    · rcases hx with rfl | rfl <;> cases hdigit
    · rcases hx with rfl | rfl <;> exact absurd hmark (by decide)

theorem readExponent_exponentText (l : DecimalLiteral) (text : List Char) :
    readExponent text l.fraction.isNone l.exponentText =
      ⟨valueOf (text ++ l.lowered.exponentText) l.isWhole, []⟩ := by
  unfold DecimalLiteral.exponentText DecimalLiteral.isWhole DecimalLiteral.lowered
  cases l.exponent with
  | none => simp [readExponent]
  | some x =>
      have hsplit := x.splitSign_digits []
      have htake : x.digits.takeWhile Char.isDigit = x.digits :=
        List.takeWhile_eq_self_iff.mpr x.isDigit_of_mem_digits
      have hdrop : x.digits.dropWhile Char.isDigit = [] :=
        List.dropWhile_eq_nil_iff.mpr x.isDigit_of_mem_digits
      rw [List.append_nil] at hsplit
      simp only [Exponent.text, readExponent, if_pos x.mark_eq, hsplit, htake, hdrop,
        if_neg x.digits_ne_nil]
      simp [Exponent.lowered]

theorem readDecimal_text (l : DecimalLiteral) :
    readDecimal l.sign.text (l.magnitude ++ l.exponentText) =
      ⟨valueOf l.lowered.text l.isWhole, []⟩ := by
  rcases l.exponentText_head with ⟨hdigit, hpoint⟩
  rcases l.span_magnitude hdigit with ⟨htake, hdrop⟩
  have hexponent : readExponent l.toMantissa.text l.fraction.isNone l.exponentText =
      ⟨valueOf l.lowered.text l.isWhole, []⟩ := readExponent_exponentText l _
  rw [Mantissa.text, Mantissa.magnitude, ← List.append_assoc] at hexponent
  have hne := l.digits_ne_nil
  unfold readDecimal
  simp only [htake, hdrop]
  cases hfraction : l.fraction with
  | none =>
      rw [hfraction, Option.getD_none, List.append_nil] at hne
      rw [Mantissa.pointText_of_none hfraction, hfraction, List.append_nil] at hexponent
      rw [Mantissa.pointText_of_none hfraction, List.nil_append]
      split
      · rename_i heq
        rw [heq] at hpoint
        exact absurd rfl hpoint
      · rw [if_neg hne]
        exact hexponent
  | some ds =>
      rw [hfraction, Option.getD_some] at hne
      rw [Mantissa.pointText_of_some hfraction, hfraction] at hexponent
      rcases Css.span_digits (Mantissa.isDigit_of_fraction hfraction) hdigit with ⟨hspan, hrest⟩
      have hsome : ¬(l.whole = [] ∧ ds = []) := fun h => hne (by rw [h.1, h.2]; rfl)
      have htext : l.sign.text ++ l.whole ++ ['.'] ++ ds = l.sign.text ++ l.whole ++ '.' :: ds := by
        simp
      rw [Mantissa.pointText_of_some hfraction]
      simp only [List.cons_append, hspan, hrest, if_neg hpoint, if_neg hsome, htext]
      exact hexponent

theorem readNumber_text (l : DecimalLiteral) :
    readNumber l.text = ⟨valueOf l.lowered.text l.isWhole, []⟩ := by
  rcases l.magnitude_head with ⟨c, cs, hmagnitude, hc⟩
  have hunsigned := l.unsigned_magnitude l.exponentText
  have hhex := not_startsHexadecimal l
  have hread := readDecimal_text l
  have hname : 'I' ≠ c ∧ 'N' ≠ c := by
    rcases hc with rfl | hdigit
    · decide
    · constructor
      · rintro rfl
        cases hdigit
      · rintro rfl
        cases hdigit
  rw [l.text_eq]
  rw [hmagnitude, List.cons_append] at hunsigned hhex hread ⊢
  rw [readNumber_unnamed l.sign hunsigned hname.1 hname.2, if_neg (by simp [hhex])]
  exact hread

theorem startsNumber_text (l : DecimalLiteral) : startsNumber l.text = true := by
  rcases l.magnitude_head with ⟨c, cs, hmagnitude, hc⟩
  rw [l.text_eq, hmagnitude]
  exact startsNumber_sign_text l.sign hc

theorem valueOf_lowered (l : DecimalLiteral) :
    valueOf l.lowered.text l.isWhole = .ok l.normal.number := by
  rw [valueOf, withZeros_lowered, ← l.isWhole_normal, l.normal.read?_text]

/-- A decimal literal is one number.  What is handed to the reader of numbers is a literal
with digits on both sides of its point that denotes the same number, and it is read as an
integer exactly if it has neither point nor exponent and fits. -/
theorem tokenize_decimal (o : Options) (l : DecimalLiteral) :
    exists (q : DecimalLiteral) (n : Number),
      readNumber l.text = ⟨valueOf l.lowered.text l.isWhole, []⟩ ∧
        withZeros l.lowered.text = q.text ∧ q.IsNormal ∧ q.value = l.value ∧
        Number.read? q.text l.isWhole = some n ∧
        tokenize o (String.ofList l.text) =
          [(Token.of number (.number n)).placed .start,
            Token.eof.placed (Location.start.past l.text)] ∧
        forall v : Int64, n = .integer v ↔
          l.fraction = none ∧ l.exponent = none ∧ v.toInt = l.signed := by
  refine ⟨l.normal, l.normal.number, readNumber_text l, withZeros_lowered l, l.isNormal_normal,
    l.value_normal, ?_, ?_, l.normal_number_eq_integer_iff⟩
  · rw [← l.isWhole_normal]
    exact l.normal.read?_text
  · rw [tokenize_number o (startsNumber_text l) (readNumber_text l), valueOf_lowered]
    rfl

end Json5
end StyleTokens
