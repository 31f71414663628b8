import StyleTokens.Json5.Dialect
import StyleTokens.Proofs.Dialect.ReadBack

/-!
# Written strings and integers of data documents are read back

A literal is read back up to its quote, whatever characters it holds.  The digits
of an integer are read back in front of a text that cannot go on with them.
-/

namespace StyleTokens
namespace Json5

open Encoding

/-!
## Strings
-/

theorem readLiteral_of_quote (rest : List Char) :
    readLiteral '"' ('"' :: rest) = ⟨[], none, rest⟩ := by
  rw [readLiteral.eq_def]
  dsimp only
  rw [if_neg (by decide), if_pos rfl]

theorem readLiteral_of_plain {c : Char} (rest : List Char) (hline : c ≠ '\n')
    (hquote : c ≠ '"') (hback : c ≠ '\\') :
    readLiteral '"' (c :: rest) = (readLiteral '"' rest).push c := by
  rw [readLiteral.eq_def]
  dsimp only
  rw [if_neg hline, if_neg hquote, if_neg hback]

theorem readLiteral_of_escape {c d : Char} {cs rest : List Char} (hline : c ≠ '\n')
    (hread : readEscape c cs = (some d, rest)) :
    readLiteral '"' ('\\' :: c :: cs) = (readLiteral '"' rest).push d := by
  rw [readLiteral.eq_def]
  dsimp only
  rw [if_neg (by decide), if_neg (by decide), if_pos rfl, if_neg hline, hread]

theorem readLiteral_literalChar (c : Char) (rest : List Char) :
    readLiteral '"' (literalChar c ++ rest) = (readLiteral '"' rest).push c := by
  unfold literalChar
  split
  · rename_i hc
    subst hc
    exact readLiteral_of_escape (by decide) rfl
  · split
    · rename_i hc
      subst hc
      exact readLiteral_of_escape (by decide) rfl
    · split
      · rename_i hc
        subst hc
        exact readLiteral_of_escape (by decide) rfl
      · split
        · rename_i hc
          subst hc
          exact readLiteral_of_escape (by decide) rfl
        · split
          · rename_i hc
            subst hc
            exact readLiteral_of_escape (by decide) rfl
          · rename_i hquote hback hline _ _
            exact readLiteral_of_plain rest hline hquote hback

theorem readLiteral_writeLiteral (cs rest : List Char) :
    readLiteral '"' (cs.flatMap literalChar ++ '"' :: rest) = ⟨cs, none, rest⟩ := by
  induction cs with
  | nil => exact readLiteral_of_quote rest
  | cons c cs ih =>
      rw [List.flatMap_cons, List.append_assoc, readLiteral_literalChar, ih]
      rfl

/-!
## Integers
-/

/-- Nothing in the text goes on with the digits of an integer, nor makes them the
mark of a hexadecimal number. -/
structure EndsInteger (rest : List Char) : Prop where
  decimal : forall c, rest.head? = some c -> c.isDigit = false ∧ c ≠ '.' ∧ c ≠ 'e' ∧ c ≠ 'E'
  unmarked : forall x, rest.head? = some x -> x ≠ 'x' ∧ x ≠ 'X'

theorem startsHexadecimal_cases {cs : List Char} (h : startsHexadecimal cs = true) :
    exists x tail, (x = 'x' ∨ x = 'X') ∧ cs = '0' :: x :: tail := by
  unfold startsHexadecimal at h
  split at h
  · exact ⟨'x', _, Or.inl rfl, rfl⟩
  · exact ⟨'X', _, Or.inr rfl, rfl⟩
  · cases h

theorem EndsInteger.startsHexadecimal {rest : List Char} (h : EndsInteger rest)
    {cs : List Char} (hcs : forall c, c ∈ cs -> c.isDigit = true) (hne : cs ≠ []) :
    startsHexadecimal (cs ++ rest) = false := by
  rw [Bool.eq_false_iff]
  intro hhex
  rcases startsHexadecimal_cases hhex with ⟨x, tail, hx, heq⟩
  cases cs with
  | nil => exact hne rfl
  | cons c cs =>
      have htail : cs ++ rest = x :: tail := (List.cons.inj heq).2
      cases cs with
      | nil =>
          have hhead : rest.head? = some x := congrArg List.head? htail
          rcases h.unmarked x hhead with ⟨hlower, hupper⟩
          exact hx.elim hlower hupper
      | cons d ds =>
          have hd : d.isDigit = true := hcs d (by simp)
          obtain rfl : d = x := (List.cons.inj htail).1
          rcases hx with rfl | rfl
          · cases hd
          · cases hd

theorem isPrefixOf_of_ne {c d : Char} (h : c ≠ d) (cs ds : List Char) :
    (c :: cs).isPrefixOf (d :: ds) = false := by
  simp [List.isPrefixOf, h]

theorem isPrefixOf_of_isDigit {c d : Char} (hc : c.isDigit = false) (hd : d.isDigit = true)
    (cs ds : List Char) : (c :: cs).isPrefixOf (d :: ds) = false := by
  refine isPrefixOf_of_ne ?_ cs ds
  rintro rfl
  rw [hc] at hd
  cases hd

theorem readExponent_of_end {rest : List Char} (h : EndsInteger rest) (text : List Char)
    (whole : Bool) : readExponent text whole rest = ⟨valueOf text whole, rest⟩ := by
  cases rest with
  | nil => rfl
  | cons c rest =>
      rw [readExponent, if_neg (not_or.mpr (h.decimal c rfl).2.2)]

theorem readDecimal_of_digits {cs rest : List Char} (sign : List Char)
    (hcs : forall c, c ∈ cs -> c.isDigit = true) (hne : cs ≠ []) (h : EndsInteger rest) :
    readDecimal sign (cs ++ rest) = ⟨valueOf (sign ++ cs) true, rest⟩ := by
  have hdigit : Css.startsDigit rest = false := by
    cases rest with
    | nil => rfl
    | cons c rest => exact (h.decimal c rfl).1
  rcases Css.span_digits hcs hdigit with ⟨htake, hdrop⟩
  unfold readDecimal
  simp only [htake, hdrop]
  split
  · exact absurd rfl (h.decimal '.' rfl).2.1
  · rw [if_neg hne, readExponent_of_end h]

theorem readNumber_integerText (n : Int64) {rest : List Char} (h : EndsInteger rest) :
    readNumber (Css.integerText n.toInt ++ rest) = ⟨.ok (.integer n), rest⟩ := by
  have hdigits : forall c, c ∈ Nat.toDigits 10 n.toInt.natAbs -> c.isDigit = true :=
    fun c hc => Css.isDigit_of_mem_toDigits hc
  have htext : (if n.toInt < 0 then ['-'] else []) ++ Nat.toDigits 10 n.toInt.natAbs =
      Css.integerText n.toInt := by
    unfold Css.integerText
    split <;> rfl
  have hpoint : '.' ∉ Css.integerText n.toInt := by
    rw [← htext, List.mem_append, not_or]
    constructor
    · split <;> decide
    · exact fun hmem => absurd (hdigits '.' hmem) (by decide)
  have hvalue : valueOf (Css.integerText n.toInt) true = .ok (.integer n) := by
    simp [valueOf, withZeros_of_not_mem hpoint, Number.read?, Css.integer?_integerText]
  have hhex := h.startsHexadecimal hdigits Nat.toDigits_ne_nil
  have hdecimal := readDecimal_of_digits (if n.toInt < 0 then ['-'] else []) hdigits
    Nat.toDigits_ne_nil h
  rw [htext, hvalue] at hdecimal
  rcases Css.toDigits_head n.toInt.natAbs with ⟨d, ds, hhead, hd⟩
  rw [hhead] at hhex hdecimal
  simp only [readNumber, Css.splitSign_integerText, hhead, List.cons_append] at hhex hdecimal ⊢
  rw [if_neg, if_neg, if_neg (by simp [hhex]), hdecimal]
  · rw [Bool.not_eq_true]
    exact isPrefixOf_of_isDigit (by decide) hd _ _
  · rw [Bool.not_eq_true]
    exact isPrefixOf_of_isDigit (by decide) hd _ _

/-!
## Tokens
-/

theorem readsBack_punctuation {c : Char} {k : Kind} (l : Location)
    (hfind : forall cs, (dialect.scanners.find? fun s => s.claims (c :: cs)) =
      some punctuationScanner)
    (hk : punctuation? c = some k) (hsource : (k.encode (k.raw.getD "")).toList = [c])
    (rest : List Char) : dialect.ReadsBack ⟨k, .none, l, none⟩ rest := by
  refine ⟨c, [], hsource, fun o => ?_⟩
  refine Dialect.pass_of_find (hfind rest) ?_ (Nat.le_refl _)
  show ([Token.bare ((punctuation? c).getD .unknown)], rest) = _
  rw [hk]
  rfl

theorem readsBack_string (s : String) (l : Location) (rest : List Char) :
    dialect.ReadsBack ⟨string, .text s, l, none⟩ rest := by
  have hsource : (string.encode s).toList = '"' :: (s.toList.flatMap literalChar ++ ['"']) := by
    simp [Kind.encode, string, writeLiteral]
  refine ⟨'"', s.toList.flatMap literalChar ++ ['"'], hsource, fun o => ?_⟩
  have hread : readString ('"' :: (s.toList.flatMap literalChar ++ ['"'] ++ rest)) =
      (.ofText string s.toList, rest) := by
    rw [List.append_assoc, List.singleton_append]
    simp only [readString, readLiteral_writeLiteral]
  have htoken : Token.ofText string s.toList = .of string (.text s) := by
    rw [Token.ofText, String.ofList_toList]
  refine Dialect.pass_of_find (s := stringScanner) rfl ?_ ?_
  · show ([(readString _).1], (readString _).2) = _
    rw [hread, htoken]
    rfl
  · rw [List.length_append]
    exact Nat.le_add_left _ _

theorem mem_digits {c : Char} (hc : c.isDigit = true) :
    c ∈ ['0', '1', '2', '3', '4', '5', '6', '7', '8', '9'] := by
  have hall : forall n, n < 58 -> 48 ≤ n ->
      Char.ofNat n ∈ ['0', '1', '2', '3', '4', '5', '6', '7', '8', '9'] := by
    decide
  rcases Css.isDigit_iff.mp hc with ⟨hlow, hhigh⟩
  have hmem := hall c.toNat (Nat.lt_succ_of_le hhigh) hlow
  rwa [Char.ofNat_toNat] at hmem

theorem find?_number {c : Char} {cs : List Char} (h : startsNumber (c :: cs) = true) :
    (dialect.scanners.find? fun s => s.claims (c :: cs)) = some numberScanner := by
  simp only [startsNumber, Bool.or_eq_true, beq_iff_eq] at h
  rcases h with ((rfl | rfl) | rfl) | hdigit
  · rfl
  · rfl
  · rfl
  · have hmem := mem_digits hdigit
    simp only [List.mem_cons, List.not_mem_nil, or_false] at hmem
    rcases hmem with rfl | rfl | rfl | rfl | rfl | rfl | rfl | rfl | rfl | rfl <;> rfl

theorem integerText_head (n : Int) :
    exists c cs, Css.integerText n = c :: cs ∧ (c = '-' ∨ c.isDigit = true) := by
  rcases Css.toDigits_head n.natAbs with ⟨d, ds, hdigits, hd⟩
  unfold Css.integerText
  split
  · exact ⟨'-', _, rfl, Or.inl rfl⟩
  · exact ⟨d, ds, hdigits, Or.inr hd⟩

theorem readsBack_integer (n : Int64) (l : Location) {rest : List Char} (h : EndsInteger rest) :
    dialect.ReadsBack ⟨number, .number (.integer n), l, none⟩ rest := by
  rcases integerText_head n.toInt with ⟨c, cs, htext, hc⟩
  have hsource : (number.encode (toString n.toInt)).toList = c :: cs := by
    rw [← htext, ← Css.toList_toString_int]
    simp [Kind.encode, number]
  refine ⟨c, cs, hsource, fun o => ?_⟩
  have hread : readNumeric (c :: (cs ++ rest)) = (.of number (.number (.integer n)), rest) := by
    have hnumber := readNumber_integerText n h
    rw [htext, List.cons_append] at hnumber
    simp only [readNumeric, hnumber]
  have hstart : startsNumber (c :: (cs ++ rest)) = true := by
    rcases hc with rfl | hdigit
    · rfl
    · simp [startsNumber, hdigit]
  refine Dialect.pass_of_find (find?_number hstart) ?_ ?_
  · show ([(readNumeric _).1], (readNumeric _).2) = _
    rw [hread]
    rfl
  · rw [List.length_append]
    exact Nat.le_add_left _ _

end Json5
end StyleTokens
