import Mathlib.Data.List.Nodup
import StyleTokens.Css.Dialect

/-!
# One pass over a style sheet

The first character of a text decides which scanner may claim it, so at most one
does.  The scanner that claims a text reads at least that character.  One pass
therefore emits what the claiming scanner read, or a delimiter for a character
that no scanner claims.
-/

namespace StyleTokens

namespace Scan

def parts {input : List Char} (s : Scan input) : List Token × List Char :=
  (s.tokens, s.rest)

end Scan

namespace Css

/-!
## Characters that decide
-/

theorem isDigit_iff {c : Char} : c.isDigit = true ↔ 48 ≤ c.toNat ∧ c.toNat ≤ 57 := by
  simp only [Char.isDigit, Bool.and_eq_true, decide_eq_true_eq, UInt32.le_iff_toNat_le, ge_iff_le]
  rfl

theorem isNameStart_iff {c : Char} :
    isNameStart c = true ↔
      (65 ≤ c.toNat ∧ c.toNat ≤ 90) ∨ (97 ≤ c.toNat ∧ c.toNat ≤ 122) ∨ c = '_' ∨
        128 ≤ c.toNat := by
  show (decide (c.val ≥ 'A'.val ∧ c.val ≤ 'Z'.val) || (c.val ≥ 'a'.val && c.val ≤ 'z'.val) ||
    c == '_' || 0x80 ≤ c.toNat) = true ↔ _
  simp only [Bool.or_eq_true, Bool.and_eq_true, decide_eq_true_eq, UInt32.le_iff_toNat_le,
    ge_iff_le, beq_iff_eq, or_assoc]
  rfl

theorem not_isDigit_of_isNameStart {c : Char} (h : isNameStart c = true) :
    c.isDigit = false := by
  rw [Bool.eq_false_iff]
  intro hd
  have hrange := isDigit_iff.mp hd
  rcases isNameStart_iff.mp h with hupper | hlower | rfl | hwide
  · omega
  · omega
  · exact absurd hd (by decide)
  · omega

theorem isBlank_cases {c : Char} (h : isBlank c = true) : c = ' ' ∨ c = '\t' ∨ c = '\n' := by
  simpa [isBlank, or_assoc] using h

theorem punctuation?_cases {c : Char} (h : (punctuation? c).isSome = true) :
    c = ';' ∨ c = ':' ∨ c = ',' ∨ c = '(' ∨ c = ')' ∨ c = '[' ∨ c = ']' ∨ c = '\x7b' ∨
      c = '\x7d' := by
  unfold punctuation? at h
  split at h <;> simp_all

/-!
## The claiming scanner
-/

/-- The characters that announce a scanner by themselves, with its name. -/
def marks : List (Char × String) :=
  [(' ', "whitespace"), ('\t', "whitespace"), ('\n', "whitespace"), (';', "punctuation"),
    (':', "punctuation"), (',', "punctuation"), ('(', "punctuation"), (')', "punctuation"),
    ('[', "punctuation"), (']', "punctuation"), ('\x7b', "punctuation"),
    ('\x7d', "punctuation"), ('+', "plus"), ('-', "minus"), ('.', "period"), ('#', "hash"),
    ('"', "string"), ('\'', "string"), ('/', "comment"), ('<', "less-than"), ('@', "at"),
    ('\\', "reverse-solidus")]

/-- The name of the scanner that may claim a text with this first character. -/
def claimant (c : Char) : String :=
  match marks.lookup c with
  | some id => id
  | none => if c.isDigit then "digit" else "ident"

theorem lookup_marks_eq_none {p : Char -> Bool} (hmarks : marks.all (fun m => !p m.1) = true)
    {c : Char} (hc : p c = true) : marks.lookup c = none := by
  rw [List.lookup_eq_none_iff]
  intro m hm
  have hp : p m.1 = false := by
    simpa using List.all_eq_true.mp hmarks m hm
  rw [bne_iff_ne]
  rintro rfl
  rw [hc] at hp
  cases hp

theorem claimant_of_isDigit {c : Char} (h : c.isDigit = true) : claimant c = "digit" := by
  rw [claimant, lookup_marks_eq_none (p := Char.isDigit) (by decide) h]
  exact if_pos h

theorem claimant_of_isNameStart {c : Char} (h : isNameStart c = true) : claimant c = "ident" := by
  rw [claimant, lookup_marks_eq_none (p := isNameStart) (by decide) h]
  exact if_neg (by simp [not_isDigit_of_isNameStart h])

theorem startsWith_cons {mark c : Char} (cs : List Char) :
    startsWith mark (c :: cs) = true ↔ c = mark := by
  simp [startsWith]

theorem startsQuote_cons {c : Char} (cs : List Char) :
    startsQuote (c :: cs) = true ↔ c = '"' ∨ c = '\'' := by
  simp [startsQuote]

theorem startsComment_iff {input : List Char} :
    Text.startsComment input = true ↔ exists cs, input = '/' :: '*' :: cs := by
  rw [Text.startsComment, List.isPrefixOf_iff_prefix]
  constructor
  · rintro ⟨cs, rfl⟩
    exact ⟨cs, rfl⟩
  · rintro ⟨cs, rfl⟩
    exact ⟨cs, rfl⟩

theorem id_of_claims {s : Scanner} (hs : s ∈ scanners) {c : Char} {cs : List Char}
    (hc : s.claims (c :: cs) = true) : s.id = claimant c := by
  simp only [scanners, List.mem_cons, List.not_mem_nil, or_false] at hs
  rcases hs with rfl | rfl | rfl | rfl | rfl | rfl | rfl | rfl | rfl | rfl | rfl | rfl | rfl
  · rcases isBlank_cases hc with rfl | rfl | rfl <;> decide
  · rcases punctuation?_cases hc with
      rfl | rfl | rfl | rfl | rfl | rfl | rfl | rfl | rfl <;> decide
  · rcases (startsWith_cons cs).mp hc with rfl
    decide
  · rcases (startsWith_cons cs).mp hc with rfl
    decide
  · exact (claimant_of_isDigit hc).symm
  · rcases (startsWith_cons cs).mp hc with rfl
    decide
  · rcases (startsWith_cons cs).mp hc with rfl
    decide
  · exact (claimant_of_isNameStart hc).symm
  · rcases (startsQuote_cons cs).mp hc with rfl | rfl <;> decide
  · rcases startsComment_iff.mp hc with ⟨cs, h⟩
    obtain rfl : c = '/' := (List.cons.inj h).1
    decide
  · rcases (startsWith_cons cs).mp hc with rfl
    decide
  · rcases (startsWith_cons cs).mp hc with rfl
    decide
  · rcases (startsWith_cons cs).mp hc with rfl
    decide

theorem claimed_or_unclaimed (c : Char) (cs : List Char) :
    (exists s, s ∈ scanners ∧ s.claims (c :: cs) = true) ∨
      forall s, s ∈ scanners -> s.claims (c :: cs) = false := by
  by_cases hclaimed : exists s, s ∈ scanners ∧ s.claims (c :: cs) = true
  · exact Or.inl hclaimed
  · refine Or.inr fun s hs => ?_
    rw [Bool.eq_false_iff]
    exact fun hc => hclaimed ⟨s, hs, hc⟩

theorem ids_nodup : (scanners.map Scanner.id).Nodup := by
  decide

theorem claims_unique {s s' : Scanner} (hs : s ∈ scanners) (hs' : s' ∈ scanners) {c : Char}
    {cs : List Char} (hc : s.claims (c :: cs) = true) (hc' : s'.claims (c :: cs) = true) :
    s = s' := by
  have hid : s.id = s'.id := by
    rw [id_of_claims hs hc, id_of_claims hs' hc']
  exact List.inj_on_of_nodup_map ids_nodup hs hs' hid

theorem find?_of_claims {s : Scanner} (hs : s ∈ scanners) {c : Char} {cs : List Char}
    (hc : s.claims (c :: cs) = true) :
    (scanners.find? fun s => s.claims (c :: cs)) = some s := by
  cases hfind : scanners.find? fun s => s.claims (c :: cs) with
  | none => exact absurd hc (List.find?_eq_none.mp hfind s hs)
  | some s' =>
      have hc' : s'.claims (c :: cs) = true := by
        simpa using List.find?_some hfind
      rw [claims_unique (List.mem_of_find?_eq_some hfind) hs hc' hc]

/-!
## First characters
-/

theorem startsFraction_of_ne {c : Char} (hc : c ≠ '.') (cs : List Char) :
    startsFraction (c :: cs) = false := by
  unfold startsFraction
  split
  · rename_i heq
    exact absurd (List.cons.inj heq).1 hc
  · rfl

theorem startsEscape_of_ne {c : Char} (hc : c ≠ '\\') (cs : List Char) :
    startsEscape (c :: cs) = false := by
  unfold startsEscape
  split
  · rfl
  · rename_i heq
    exact absurd (List.cons.inj heq).1 hc
  · rfl

theorem startsEscape_backslash {c : Char} (hc : c ≠ '\n') (cs : List Char) :
    startsEscape ('\\' :: c :: cs) = true := by
  unfold startsEscape
  split
  · rename_i heq
    exact absurd (List.cons.inj (List.cons.inj heq).2).1 hc
  · rfl
  · rename_i hback
    exact absurd rfl (hback _)

theorem startsName_of_ne {c : Char} (hc : c ≠ '-') (cs : List Char) :
    startsName (c :: cs) = (isNameStart c || startsEscape (c :: cs)) := by
  unfold startsName
  split
  · rename_i heq
    exact absurd (List.cons.inj heq).1 hc
  · rename_i heq
    exact absurd (List.cons.inj heq).1 hc
  · rename_i heq
    rcases List.cons.inj heq with ⟨rfl, rfl⟩
    rfl
  · rename_i heq
    cases heq

theorem startsEscape_head {c : Char} {cs : List Char} (h : startsEscape (c :: cs) = true) :
    c = '\\' := by
  by_contra hc
  rw [startsEscape_of_ne hc] at h
  cases h

theorem startsName_of_isNameStart {c : Char} (cs : List Char) (h : isNameStart c = true) :
    startsName (c :: cs) = true := by
  have hc : c ≠ '-' := by
    rintro rfl
    exact absurd h (by decide)
  rw [startsName_of_ne hc, h, Bool.true_or]

/-!
## Progress

Every reader moves past the character that made its scanner claim the text.
-/

theorem readNumeral_rest_suffix_fraction (cs : List Char) :
    (readNumeral cs).rest <:+
      (splitFraction ((Text.splitSign cs).2.dropWhile Char.isDigit)).2 := by
  simp only [readNumeral]
  split
  · exact List.dropWhile_suffix _
  · exact readExponent_suffix _ _ _

theorem splitFraction_suffix_tail {c : Char} {cs : List Char}
    (h : startsFraction (c :: cs) = true) : (splitFraction (c :: cs)).2 <:+ cs := by
  rw [splitFraction, if_pos h]
  exact List.dropWhile_suffix _

theorem startsNumber_of_isDigit {c : Char} (cs : List Char) (h : c.isDigit = true) :
    startsNumber (c :: cs) = true := by
  have hsign : ¬(c = '+' ∨ c = '-') := by
    rintro (rfl | rfl) <;> exact absurd h (by decide)
  rw [startsNumber, if_neg hsign, h, Bool.true_or]

theorem readNumeral_suffix_tail {c : Char} {cs : List Char}
    (h : startsNumber (c :: cs) = true) : (readNumeral (c :: cs)).rest <:+ cs := by
  refine (readNumeral_rest_suffix_fraction (c :: cs)).trans ?_
  rw [Text.splitSign]
  split
  · exact (splitFraction_suffix _).trans (List.dropWhile_suffix _)
  · rename_i hsign
    rw [startsNumber, if_neg hsign, Bool.or_eq_true] at h
    cases hdigit : c.isDigit with
    | true =>
        rw [List.dropWhile_cons, if_pos hdigit]
        exact (splitFraction_suffix _).trans (List.dropWhile_suffix _)
    | false =>
        rw [List.dropWhile_cons, if_neg (by simp [hdigit])]
        exact splitFraction_suffix_tail (h.resolve_left (by simp [hdigit]))

theorem readNumeric_suffix_tail {c : Char} {cs : List Char}
    (h : startsNumber (c :: cs) = true) : (readNumeric (c :: cs)).2 <:+ cs := by
  have hunit : forall n, (withUnit n (readNumeral (c :: cs)).rest).2 <:+ cs := fun n =>
    (withUnit_suffix n _).trans (readNumeral_suffix_tail h)
  simp only [readNumeric]
  split
  · exact hunit _
  · exact hunit _

theorem startsName_cases {c : Char} {cs : List Char} (h : startsName (c :: cs) = true) :
    isNameChar c = true ∨ startsEscape (c :: cs) = true := by
  unfold startsName at h
  split at h
  · rename_i heq
    rcases List.cons.inj heq with ⟨rfl, -⟩
    exact Or.inl (by decide)
  · cases h
  · rename_i heq
    rcases List.cons.inj heq with ⟨rfl, rfl⟩
    rcases Bool.or_eq_true_iff.mp h with hstart | hescape
    · exact Or.inl (isNameChar_of_isNameStart hstart)
    · exact Or.inr hescape
  · cases h

theorem readName_suffix_tail {c : Char} {cs : List Char} (h : startsName (c :: cs) = true) :
    (readName (c :: cs)).2 <:+ cs := by
  rw [readName_cons]
  split
  · exact readName_suffix cs
  · rename_i hchar
    rw [if_pos ((startsName_cases h).resolve_left hchar)]
    exact (readName_suffix _).trans (readEscape_suffix cs)

theorem readNameLike_of_ident {input cs rest : List Char} (hname : readName input = (cs, rest))
    (hrest : rest.head? ≠ some '(') : readNameLike input = (.ofText ident cs, rest) := by
  unfold readNameLike
  simp only [hname]
  split
  · exact absurd rfl hrest
  · rfl

theorem readNameLike_of_open {input cs rest : List Char}
    (hname : readName input = (cs, '(' :: rest)) :
    readNameLike input =
      if Text.sameFolded (String.ofList cs) "url" && !startsQuote (rest.dropWhile isBlank) then
        addressToken rest
      else (.ofText function cs, rest) := by
  unfold readNameLike
  simp only [hname]

theorem readNameLike_suffix_tail {c : Char} {cs : List Char}
    (h : startsName (c :: cs) = true) : (readNameLike (c :: cs)).2 <:+ cs := by
  have hname := readName_suffix_tail h
  simp only [readNameLike]
  split
  · rename_i rest hrest
    have hopen : rest <:+ cs := (List.suffix_cons '(' rest).trans (hrest ▸ hname)
    split
    · exact (addressToken_suffix rest).trans hopen
    · exact hopen
  · exact hname

theorem drop_succ_suffix_tail (n : Nat) (c : Char) (cs : List Char) :
    (c :: cs).drop (n + 1) <:+ cs := by
  rw [List.drop_succ_cons]
  exact List.drop_suffix n cs

theorem readNumberOrDelim_suffix_tail (c : Char) (cs : List Char) :
    (readNumberOrDelim (c :: cs)).2 <:+ cs := by
  rw [readNumberOrDelim]
  split
  · rename_i hnumber
    exact readNumeric_suffix_tail hnumber
  · exact List.suffix_refl cs

theorem readHyphen_suffix_tail (c : Char) (cs : List Char) :
    (readHyphen (c :: cs)).2 <:+ cs := by
  rw [readHyphen]
  split
  · rename_i hnumber
    exact readNumeric_suffix_tail hnumber
  · split
    · exact drop_succ_suffix_tail 2 c cs
    · split
      · rename_i hname
        exact readNameLike_suffix_tail hname
      · exact List.suffix_refl cs

theorem scan_suffix_tail {s : Scanner} (hs : s ∈ scanners) (o : Options) {c : Char}
    {cs : List Char} (hc : s.claims (c :: cs) = true) : (s.scan o (c :: cs)).rest <:+ cs := by
  simp only [scanners, List.mem_cons, List.not_mem_nil, or_false] at hs
  rcases hs with rfl | rfl | rfl | rfl | rfl | rfl | rfl | rfl | rfl | rfl | rfl | rfl | rfl
  · show (c :: cs).dropWhile isBlank <:+ cs
    have hblank : isBlank c = true := hc
    rw [List.dropWhile_cons, if_pos hblank]
    exact List.dropWhile_suffix _
  · exact List.suffix_refl cs
  · exact readNumberOrDelim_suffix_tail c cs
  · exact readHyphen_suffix_tail c cs
  · exact readNumeric_suffix_tail (startsNumber_of_isDigit cs hc)
  · exact readNumberOrDelim_suffix_tail c cs
  · show (readHash (c :: cs)).2 <:+ cs
    simp only [readHash, List.drop_succ_cons, List.drop_zero]
    split
    · exact readName_suffix cs
    · exact List.suffix_refl cs
  · exact readNameLike_suffix_tail (startsName_of_isNameStart cs hc)
  · show (readQuoted (c :: cs)).2 <:+ cs
    simp only [readQuoted]
    split
    · exact readString_suffix c cs
    · exact readString_suffix c cs
  · exact (Text.readComment_suffix _).trans (drop_succ_suffix_tail 1 c cs)
  · show (readLess (c :: cs)).2 <:+ cs
    rw [readLess]
    split
    · exact drop_succ_suffix_tail 3 c cs
    · exact List.suffix_refl cs
  · show (readAt (c :: cs)).2 <:+ cs
    simp only [readAt, List.drop_succ_cons, List.drop_zero]
    split
    · exact readName_suffix cs
    · exact List.suffix_refl cs
  · show (readBackslash (c :: cs)).2 <:+ cs
    rw [readBackslash]
    split
    · rename_i hname
      exact readNameLike_suffix_tail hname
    · exact List.suffix_refl cs

/-!
## The pass
-/

theorem pass_of_claims {s : Scanner} (hs : s ∈ scanners) (o : Options) {c : Char}
    {cs : List Char} (hc : s.claims (c :: cs) = true) :
    (dialect.pass o c cs).parts = (s.scan o (c :: cs)).parts := by
  have hmoved : (s.scan o (c :: cs)).rest ≠ c :: cs := by
    intro h
    have hlen := (scan_suffix_tail hs o hc).length_le
    rw [h, List.length_cons] at hlen
    omega
  have hfind : (dialect.scanners.find? fun s => s.claims (c :: cs)) = some s :=
    find?_of_claims hs hc
  unfold Dialect.pass
  split
  · rename_i s' hs'
    obtain rfl : s = s' := Option.some.inj (hfind.symm.trans hs')
    rw [dif_neg hmoved]
    rfl
  · rename_i hnone
    rw [hfind] at hnone
    cases hnone

theorem pass_of_unclaimed (o : Options) {c : Char} {cs : List Char}
    (h : forall s, s ∈ scanners -> s.claims (c :: cs) = false) :
    (dialect.pass o c cs).parts = ([.of delim (.char c)], cs) := by
  have hfind : (dialect.scanners.find? fun s => s.claims (c :: cs)) = none :=
    List.find?_eq_none.mpr fun s hs => by simp [h s hs]
  unfold Dialect.pass
  split
  · rename_i s hs
    rw [hfind] at hs
    cases hs
  · rfl

theorem pass_tokens_of_claims {s : Scanner} (hs : s ∈ scanners) (o : Options) {c : Char}
    {cs : List Char} (hc : s.claims (c :: cs) = true) :
    (dialect.pass o c cs).tokens = (s.scan o (c :: cs)).tokens :=
  congrArg Prod.fst (pass_of_claims hs o hc)

theorem pass_tokens_of_unclaimed (o : Options) {c : Char} {cs : List Char}
    (h : forall s, s ∈ scanners -> s.claims (c :: cs) = false) :
    (dialect.pass o c cs).tokens = [.of delim (.char c)] :=
  congrArg Prod.fst (pass_of_unclaimed o h)

end Css
end StyleTokens
