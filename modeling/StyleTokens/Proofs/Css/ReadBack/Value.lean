import StyleTokens.Proofs.Css.ReadBack.Name

/-!
# Written strings and addresses are read back

What is written between quotes or in the parentheses of an address is read back
up to the closing character, whatever follows it.  The text of an integer is its
digits behind its sign, and names it.
-/

namespace StyleTokens
namespace Css

open Encoding

/-!
## Strings
-/

theorem readString_of_quote (quote : Char) {rest : List Char} (hquote : quote ≠ '\n') :
    readString quote (quote :: rest) = ⟨[], none, rest⟩ := by
  rw [readString.eq_def]
  dsimp only
  rw [if_neg hquote, if_pos rfl]

theorem readString_of_plain {quote c : Char} (rest : List Char) (hline : c ≠ '\n')
    (hquote : c ≠ quote) (hback : c ≠ '\\') :
    readString quote (c :: rest) = (readString quote rest).push c := by
  rw [readString.eq_def]
  dsimp only
  rw [if_neg hline, if_neg hquote, if_neg hback]

theorem readString_of_escape {quote c d : Char} {cs rest : List Char} (hquote : quote ≠ '\\')
    (hline : c ≠ '\n') (hread : readEscape (c :: cs) = (d, rest)) :
    readString quote ('\\' :: c :: cs) = (readString quote rest).push d := by
  rw [readString.eq_def]
  dsimp only
  rw [if_neg (by decide), if_neg (Ne.symm hquote), if_pos rfl, if_neg hline, hread]

theorem readString_quotedChar (c : Char) (rest : List Char) :
    readString '"' (quotedChar c ++ rest) = (readString '"' rest).push c := by
  unfold quotedChar
  split
  · rename_i hc
    subst hc
    exact readString_of_escape (by decide) (by decide) (readEscape_plain (by decide) rest)
  · split
    · rename_i hc
      subst hc
      exact readString_of_escape (by decide) (by decide) (readEscape_plain (by decide) rest)
    · split
      · rename_i hc
        subst hc
        exact readString_of_escape (by decide) (by decide)
          (readEscape_hexText (c := '\n') (by decide) rest)
      · rename_i hquote hback hline
        exact readString_of_plain rest hline hquote hback

theorem readString_writeQuoted (cs rest : List Char) :
    readString '"' (cs.flatMap quotedChar ++ '"' :: rest) = ⟨cs, none, rest⟩ := by
  induction cs with
  | nil => exact readString_of_quote '"' (by decide)
  | cons c cs ih =>
      rw [List.flatMap_cons, List.append_assoc, readString_quotedChar, ih]
      rfl

/-!
## Addresses
-/

theorem readAddress_of_close (rest : List Char) :
    readAddress (')' :: rest) = ⟨[], none, rest⟩ := by
  rw [readAddress.eq_2, if_pos rfl]

theorem readAddress_of_plain {c : Char} (rest : List Char) (hclose : c ≠ ')')
    (hblank : isBlank c = false) (hforbidden : isForbidden c = false) (hback : c ≠ '\\') :
    readAddress (c :: rest) = (readAddress rest).push c := by
  rw [readAddress.eq_2, if_neg hclose, if_neg (by simp [hblank]), if_neg (by simp [hforbidden]),
    if_neg hback]

theorem readAddress_of_escape {cs rest : List Char} {d : Char}
    (hescape : startsEscape ('\\' :: cs) = true) (hread : readEscape cs = (d, rest)) :
    readAddress ('\\' :: cs) = (readAddress rest).push d := by
  rw [readAddress.eq_2, if_neg (by decide), if_neg (by decide), if_neg (by decide), if_pos rfl,
    if_pos hescape, hread]

theorem not_isBlank_of_not_needsNumber {c : Char} (hnumber : needsNumber c = false)
    (hspace : ¬(c = ' ' ∨ c = '\t')) : isBlank c = false := by
  rw [Bool.eq_false_iff]
  intro hblank
  rcases isBlank_cases hblank with rfl | rfl | rfl
  · exact hspace (Or.inl rfl)
  · exact hspace (Or.inr rfl)
  · exact absurd hnumber (by decide)

theorem needsNumber_of_isUnprintable {c : Char} (h : isUnprintable c = true) :
    needsNumber c = true := by
  have htab : c ≠ '\t' := by
    rintro rfl
    exact absurd h (by decide)
  have hcontrol : Text.isControl c = true := by
    simp only [isUnprintable, Bool.or_eq_true, Bool.and_eq_true, decide_eq_true_eq,
      beq_iff_eq] at h
    simp only [Text.isControl, Bool.or_eq_true, Bool.and_eq_true, decide_eq_true_eq]
    omega
  simp [needsNumber, hcontrol, htab]

theorem isAddressMark_cases {c : Char} (h : isAddressMark c = true) :
    c = '(' ∨ c = ')' ∨ c = '"' ∨ c = '\'' ∨ c = '\\' := by
  simpa [isAddressMark, or_assoc] using h

theorem addressChar_cases (c : Char) :
    addressChar c = hexEscape c ∨
      (Text.isHexDigit c = false ∧ c ≠ '\n' ∧ addressChar c = ['\\', c]) ∨
      (c ≠ ')' ∧ isBlank c = false ∧ isForbidden c = false ∧ c ≠ '\\' ∧
        addressChar c = [c]) := by
  unfold addressChar
  split
  · rename_i hmark
    refine Or.inr (Or.inl ?_)
    rcases isAddressMark_cases hmark with rfl | rfl | rfl | rfl | rfl <;>
      exact ⟨by decide, by decide, rfl⟩
  · rename_i hmark
    split
    · exact Or.inl rfl
    · rename_i hnumber
      split
      · rename_i hspace
        refine Or.inr (Or.inl ?_)
        rcases hspace with rfl | rfl <;> exact ⟨by decide, by decide, rfl⟩
      · rename_i hspace
        have hunprintable : isUnprintable c = false := by
          rw [Bool.eq_false_iff]
          exact fun h => hnumber (needsNumber_of_isUnprintable h)
        simp only [isAddressMark, Bool.or_eq_true, beq_iff_eq, not_or] at hmark
        refine Or.inr (Or.inr ⟨hmark.1.1.1.2, ?_, ?_, hmark.2, rfl⟩)
        · exact not_isBlank_of_not_needsNumber (by simpa using hnumber) hspace
        · simp [isForbidden, hmark, hunprintable]

theorem readAddress_addressChar {c : Char} (hc : c ≠ '\x00') (rest : List Char) :
    readAddress (addressChar c ++ rest) = (readAddress rest).push c := by
  rcases addressChar_cases c with
    hchar | ⟨hhex, hline, hchar⟩ | ⟨hclose, hblank, hforbidden, hback, hchar⟩
  · have hshape : hexEscape c ++ rest = '\\' :: (Text.hexText c.toNat ++ ' ' :: rest) := by
      simp [hexEscape]
    have hescape := startsEscape_hexEscape c rest
    rw [hchar]
    rw [hshape] at hescape ⊢
    exact readAddress_of_escape hescape (readEscape_hexText hc rest)
  · rw [hchar]
    exact readAddress_of_escape (startsEscape_backslash hline rest) (readEscape_plain hhex rest)
  · rw [hchar]
    exact readAddress_of_plain rest hclose hblank hforbidden hback

theorem readAddress_writeAddress {cs : List Char} (h : '\x00' ∉ cs) (rest : List Char) :
    readAddress (cs.flatMap addressChar ++ ')' :: rest) = ⟨cs, none, rest⟩ := by
  induction cs with
  | nil => exact readAddress_of_close rest
  | cons c cs ih =>
      rw [List.mem_cons, not_or] at h
      rw [List.flatMap_cons, List.append_assoc, readAddress_addressChar (Ne.symm h.1), ih h.2]
      rfl

theorem addressChar_head (c : Char) :
    exists d ds, addressChar c = d :: ds ∧ isBlank d = false ∧ d ≠ '"' ∧ d ≠ '\'' := by
  rcases addressChar_cases c with
    hchar | ⟨_, _, hchar⟩ | ⟨_, hblank, hforbidden, _, hchar⟩
  · exact ⟨'\\', _, hchar, by decide, by decide, by decide⟩
  · exact ⟨'\\', [c], hchar, by decide, by decide, by decide⟩
  · refine ⟨c, [], hchar, hblank, ?_, ?_⟩
    · rintro rfl
      exact absurd hforbidden (by decide)
    · rintro rfl
      exact absurd hforbidden (by decide)

theorem flatMap_addressChar_head (cs rest : List Char) :
    exists d ds, cs.flatMap addressChar ++ ')' :: rest = d :: ds ∧
      isBlank d = false ∧ d ≠ '"' ∧ d ≠ '\'' := by
  cases cs with
  | nil => exact ⟨')', rest, rfl, by decide, by decide, by decide⟩
  | cons c cs =>
      rcases addressChar_head c with ⟨d, ds, hchar, hd⟩
      exact ⟨d, ds ++ (cs.flatMap addressChar ++ ')' :: rest), by simp [hchar], hd⟩

theorem readName_of_end {c : Char} (cs : List Char) (hname : isNameChar c = false)
    (hback : c ≠ '\\') : readName (c :: cs) = ([], c :: cs) := by
  rw [readName_cons, if_neg (by simp [hname]), if_neg fun h => hback (startsEscape_head h)]

theorem readNameLike_writeAddress {cs : List Char} (h : '\x00' ∉ cs) (rest : List Char) :
    readNameLike (writeAddress cs ++ rest) = (.ofText url cs, rest) := by
  have hshape : writeAddress cs ++ rest =
      'u' :: 'r' :: 'l' :: '(' :: (cs.flatMap addressChar ++ ')' :: rest) := by
    simp [writeAddress]
  have hname : readName (writeAddress cs ++ rest) =
      (['u', 'r', 'l'], '(' :: (cs.flatMap addressChar ++ ')' :: rest)) := by
    rw [hshape, readName_cons, if_pos (by decide), readName_cons, if_pos (by decide),
      readName_cons, if_pos (by decide), readName_of_end _ (by decide) (by decide)]
  rcases flatMap_addressChar_head cs rest with ⟨d, ds, hhead, hblank, hdouble, hsingle⟩
  have hdrop : (cs.flatMap addressChar ++ ')' :: rest).dropWhile isBlank =
      cs.flatMap addressChar ++ ')' :: rest := by
    rw [hhead, List.dropWhile_cons, if_neg (by simp [hblank])]
  rw [readNameLike_of_url hname]
  · simp only [addressToken, hdrop, readAddress_writeAddress h]
  · rw [hdrop, hhead]
    simp [startsQuote, hdouble, hsingle]

/-!
## Integers
-/

theorem decimalNumber_toDigits (n : Nat) : Text.decimalNumber (Nat.toDigits 10 n) = n := by
  have hdigits : Nat.ofDigitChars 10 (Nat.toDigits 10 n) 0 = n := Nat.ofDigitChars_ten_toDigits
  rw [Nat.ofDigitChars_eq_foldl] at hdigits
  exact hdigits

def integerText (n : Int) : List Char :=
  if n < 0 then '-' :: Nat.toDigits 10 n.natAbs else Nat.toDigits 10 n.natAbs

theorem toList_toString_int (n : Int) : (toString n).toList = integerText n := by
  cases n with
  | ofNat n =>
      have hsign : ¬(Int.ofNat n < 0) := by simp
      rw [integerText, if_neg hsign]
      exact Nat.toList_repr
  | negSucc n =>
      rw [integerText, if_pos (Int.negSucc_lt_zero n)]
      show ("-" ++ (n + 1).repr).toList = _
      rw [String.toList_append, Nat.toList_repr]
      rfl

theorem isDigit_of_mem_toDigits {n : Nat} {c : Char} (hc : c ∈ Nat.toDigits 10 n) :
    c.isDigit = true :=
  Nat.isDigit_of_mem_toDigits (by decide) (by decide) hc

theorem toDigits_head (n : Nat) :
    exists d ds, Nat.toDigits 10 n = d :: ds ∧ d.isDigit = true := by
  cases hdigits : Nat.toDigits 10 n with
  | nil => exact absurd hdigits Nat.toDigits_ne_nil
  | cons d ds => exact ⟨d, ds, rfl, isDigit_of_mem_toDigits (hdigits ▸ List.mem_cons_self)⟩

theorem ne_sign_of_isDigit {c : Char} (h : c.isDigit = true) : c ≠ '+' ∧ c ≠ '-' := by
  constructor
  · rintro rfl
    exact absurd h (by decide)
  · rintro rfl
    exact absurd h (by decide)

theorem sign_toDigits (n : Nat) :
    StyleTokens.Numeral.sign (Nat.toDigits 10 n) = (false, Nat.toDigits 10 n) := by
  rcases toDigits_head n with ⟨d, ds, hdigits, hd⟩
  rcases ne_sign_of_isDigit hd with ⟨hplus, hminus⟩
  rw [hdigits]
  unfold StyleTokens.Numeral.sign
  split
  · rename_i heq
    exact absurd (List.cons.inj heq).1 hminus
  · rename_i heq
    exact absurd (List.cons.inj heq).1 hplus
  · rfl

theorem natural?_toDigits (n : Nat) :
    StyleTokens.Numeral.natural? (Nat.toDigits 10 n) = some n := by
  rw [StyleTokens.Numeral.natural?, if_pos, decimalNumber_toDigits]
  exact ⟨Nat.toDigits_ne_nil, List.all_eq_true.mpr fun c hc => isDigit_of_mem_toDigits hc⟩

theorem int64?_toInt (n : Int64) : StyleTokens.Numeral.int64? n.toInt = some n := by
  rw [StyleTokens.Numeral.int64?, if_pos, Int64.ofInt_toInt]
  exact ⟨n.minValue_le_toInt, n.toInt_le⟩

theorem integer?_integerText (n : Int64) :
    StyleTokens.Numeral.integer? (integerText n.toInt) = some n := by
  unfold integerText
  split
  · have habs : -(n.toInt.natAbs : Int) = n.toInt := by omega
    have hsign : StyleTokens.Numeral.sign ('-' :: Nat.toDigits 10 n.toInt.natAbs) =
        (true, Nat.toDigits 10 n.toInt.natAbs) := rfl
    unfold StyleTokens.Numeral.integer?
    simp only [hsign, natural?_toDigits, if_true, habs, int64?_toInt]
  · have habs : (n.toInt.natAbs : Int) = n.toInt := by omega
    unfold StyleTokens.Numeral.integer?
    simp only [sign_toDigits, natural?_toDigits, Bool.false_eq_true, if_false, habs,
      int64?_toInt]

theorem splitSign_integerText (n : Int) (rest : List Char) :
    Text.splitSign (integerText n ++ rest) =
      (if n < 0 then ['-'] else [], Nat.toDigits 10 n.natAbs ++ rest) := by
  rcases toDigits_head n.natAbs with ⟨d, ds, hdigits, hd⟩
  unfold integerText
  split
  · rfl
  · rw [hdigits, List.cons_append, Text.splitSign]
    exact if_neg (not_or.mpr (ne_sign_of_isDigit hd))

theorem span_digits {cs rest : List Char} (hcs : forall c, c ∈ cs -> c.isDigit = true)
    (hrest : startsDigit rest = false) :
    (cs ++ rest).takeWhile Char.isDigit = cs ∧ (cs ++ rest).dropWhile Char.isDigit = rest := by
  rw [List.takeWhile_append_of_pos hcs, List.dropWhile_append_of_pos hcs]
  cases rest with
  | nil => exact ⟨List.append_nil cs, rfl⟩
  | cons c rest =>
      have hc : c.isDigit = false := hrest
      simp [hc]

end Css
end StyleTokens
