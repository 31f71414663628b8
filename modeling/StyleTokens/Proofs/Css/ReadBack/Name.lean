import StyleTokens.Proofs.Css.Lexeme
import StyleTokens.Proofs.Text.Escaped

/-!
# Written names are read back

Writing a name and reading it is the identity, on every name without a zero
character and in front of every text that cannot go on with the name.  A
hexadecimal escape takes the blank behind it, so what follows an escape is never
touched.
-/

namespace StyleTokens

namespace Text

theorem spanUpTo_of_all {p : Char -> Bool} {n : Nat} {cs rest : List Char}
    (hlen : cs.length ≤ n) (hall : forall c, c ∈ cs -> p c = true)
    (hrest : forall c, rest.head? = some c -> p c = false) :
    spanUpTo p n (cs ++ rest) = (cs, rest) := by
  induction cs generalizing n with
  | nil =>
      cases n with
      | zero => rfl
      | succ n =>
          cases rest with
          | nil => rfl
          | cons c rest =>
              have hc : p c = false := hrest c rfl
              simp [spanUpTo, hc]
  | cons c cs ih =>
      cases n with
      | zero => cases hlen
      | succ n =>
          have hc : p c = true := hall c List.mem_cons_self
          have hspan := ih (Nat.le_of_succ_le_succ hlen)
            fun d hd => hall d (List.mem_cons_of_mem c hd)
          simp [spanUpTo, hc, hspan]

end Text

namespace Css

open Encoding

/-!
## Escapes
-/

theorem isNameChar_of_isHexDigit {c : Char} (h : Text.isHexDigit c = true) :
    isNameChar c = true := by
  have hletter : forall {lo hi : Char}, lo ≤ c -> c ≤ hi ->
      lo.toNat ≤ c.toNat ∧ c.toNat ≤ hi.toNat := fun hlo hhi => ⟨hlo, hhi⟩
  simp only [Text.isHexDigit, Bool.or_eq_true, Bool.and_eq_true, decide_eq_true_eq] at h
  rcases h with (hdigit | ⟨hlo, hhi⟩) | ⟨hlo, hhi⟩
  · simp [isNameChar, hdigit]
  · have hrange := hletter hlo hhi
    simp at hrange
    exact isNameChar_of_isNameStart (isNameStart_iff.mpr (by omega))
  · have hrange := hletter hlo hhi
    simp at hrange
    exact isNameChar_of_isNameStart (isNameStart_iff.mpr (by omega))

theorem readEscape_hexText {c : Char} (hc : c ≠ '\x00') (rest : List Char) :
    readEscape (Text.hexText c.toNat ++ ' ' :: rest) = (c, rest) := by
  have hnumber := Text.hexNumber_hexText c.toNat
  have hlen := Text.length_hexText_le c
  have hall : forall d, d ∈ Text.hexText c.toNat -> Text.isHexDigit d = true :=
    fun d hd => Text.isHexDigit_of_mem_hexText hd
  cases htext : Text.hexText c.toNat with
  | nil => exact absurd htext Nat.toDigits_ne_nil
  | cons d ds =>
      rw [htext] at hnumber hlen hall
      have hspan : Text.spanUpTo Text.isHexDigit 5 (ds ++ ' ' :: rest) = (ds, ' ' :: rest) :=
        Text.spanUpTo_of_all (Nat.le_of_succ_le_succ hlen)
          (fun e he => hall e (List.mem_cons_of_mem d he)) (by simp; decide)
      have hvalue : numbered c.toNat = c := by
        rw [numbered, if_pos, Char.ofNat_toNat]
        refine ⟨?_, c.valid⟩
        intro hzero
        apply hc
        rw [← Char.ofNat_toNat c, hzero]
      rw [List.cons_append, readEscape, if_pos (hall d List.mem_cons_self)]
      simp only [hspan, hnumber, hvalue]
      rfl

theorem readEscape_plain {c : Char} (hc : Text.isHexDigit c = false) (rest : List Char) :
    readEscape (c :: rest) = (c, rest) := by
  rw [readEscape, if_neg (by simp [hc])]

theorem hexText_head (n : Nat) :
    exists d ds, Text.hexText n = d :: ds ∧ Text.isHexDigit d = true := by
  cases htext : Text.hexText n with
  | nil => exact absurd htext Nat.toDigits_ne_nil
  | cons d ds =>
      refine ⟨d, ds, rfl, Text.isHexDigit_of_mem_hexText (n := n) ?_⟩
      rw [htext]
      exact List.mem_cons_self

theorem startsEscape_hexEscape (c : Char) (rest : List Char) :
    startsEscape (hexEscape c ++ rest) = true := by
  rcases hexText_head c.toNat with ⟨d, ds, htext, hd⟩
  rw [hexEscape, htext]
  apply startsEscape_backslash
  rintro rfl
  exact absurd hd (by decide)

/-!
## Names
-/

theorem readName_backslash {cs rest : List Char} {d : Char}
    (hescape : startsEscape ('\\' :: cs) = true) (hread : readEscape cs = (d, rest)) :
    readName ('\\' :: cs) = (d :: (readName rest).1, (readName rest).2) := by
  rw [readName_cons, if_neg (by decide), if_pos hescape, hread]

theorem readName_hexEscape {c : Char} (hc : c ≠ '\x00') (rest : List Char) :
    readName (hexEscape c ++ rest) = (c :: (readName rest).1, (readName rest).2) := by
  have hshape : hexEscape c ++ rest = '\\' :: (Text.hexText c.toNat ++ ' ' :: rest) := by
    simp [hexEscape]
  have hescape := startsEscape_hexEscape c rest
  rw [hshape] at hescape ⊢
  exact readName_backslash hescape (readEscape_hexText hc rest)

theorem ne_newline_of_not_needsNumber {c : Char} (h : needsNumber c = false) : c ≠ '\n' := by
  rintro rfl
  exact absurd h (by decide)

theorem not_isHexDigit_of_not_isNameChar {c : Char} (h : isNameChar c = false) :
    Text.isHexDigit c = false := by
  rw [Bool.eq_false_iff]
  intro hhex
  rw [isNameChar_of_isHexDigit hhex] at h
  cases h

theorem nameChar_cases (c : Char) :
    nameChar c = hexEscape c ∨
      (isNameChar c = true ∧ nameChar c = [c]) ∨
      (isNameChar c = false ∧ c ≠ '\n' ∧ nameChar c = ['\\', c]) := by
  unfold nameChar
  cases hnumber : needsNumber c with
  | true => exact Or.inl rfl
  | false =>
      cases hname : isNameChar c with
      | true => exact Or.inr (Or.inl ⟨rfl, rfl⟩)
      | false => exact Or.inr (Or.inr ⟨rfl, ne_newline_of_not_needsNumber hnumber, rfl⟩)

theorem nameStart_cases (c : Char) :
    nameStart c = hexEscape c ∨
      ((isNameStart c = true ∨ c = '-') ∧ nameStart c = [c]) ∨
      (isNameChar c = false ∧ c ≠ '\n' ∧ nameStart c = ['\\', c]) := by
  unfold nameStart
  cases hdigit : c.isDigit with
  | true => exact Or.inl rfl
  | false =>
      rcases nameChar_cases c with hhex | ⟨hname, hchar⟩ | hplain
      · exact Or.inl hhex
      · refine Or.inr (Or.inl ⟨?_, hchar⟩)
        simpa [isNameChar, hdigit] using hname
      · exact Or.inr (Or.inr hplain)

theorem readName_nameChar {c : Char} (hc : c ≠ '\x00') (rest : List Char) :
    readName (nameChar c ++ rest) = (c :: (readName rest).1, (readName rest).2) := by
  rcases nameChar_cases c with hchar | ⟨hname, hchar⟩ | ⟨hname, hline, hchar⟩
  · rw [hchar]
    exact readName_hexEscape hc rest
  · rw [hchar, List.singleton_append, readName_cons, if_pos hname]
  · rw [hchar]
    exact readName_backslash (startsEscape_backslash hline rest)
      (readEscape_plain (not_isHexDigit_of_not_isNameChar hname) rest)

theorem readName_nameStart {c : Char} (hc : c ≠ '\x00') (rest : List Char) :
    readName (nameStart c ++ rest) = (c :: (readName rest).1, (readName rest).2) := by
  unfold nameStart
  split
  · exact readName_hexEscape hc rest
  · exact readName_nameChar hc rest

theorem readName_nameChars {cs : List Char} (h : '\x00' ∉ cs) (rest : List Char) :
    readName (cs.flatMap nameChar ++ rest) = (cs ++ (readName rest).1, (readName rest).2) := by
  induction cs with
  | nil => rfl
  | cons c cs ih =>
      rw [List.mem_cons, not_or] at h
      rw [List.flatMap_cons, List.append_assoc, readName_nameChar (Ne.symm h.1), ih h.2]
      rfl

theorem readName_writeName_append {cs : List Char} (h : '\x00' ∉ cs) (rest : List Char) :
    readName (writeName cs ++ rest) = (cs ++ (readName rest).1, (readName rest).2) := by
  unfold writeName
  split
  · rfl
  · exact readName_backslash (startsEscape_backslash (by decide) rest)
      (readEscape_plain (c := '-') (by decide) rest)
  · rename_i c cs
    rw [List.mem_cons, List.mem_cons, not_or, not_or] at h
    rw [List.append_assoc, List.cons_append, readName_cons, if_pos (by decide),
      readName_nameStart (Ne.symm h.2.1), readName_nameChars h.2.2]
    rfl
  · rename_i c cs _ _
    rw [List.mem_cons, not_or] at h
    rw [List.append_assoc, readName_nameStart (Ne.symm h.1), readName_nameChars h.2]
    rfl

theorem readName_writeName {cs rest : List Char} (h : '\x00' ∉ cs)
    (hrest : readName rest = ([], rest)) : readName (writeName cs ++ rest) = (cs, rest) := by
  rw [readName_writeName_append h, hrest, List.append_nil]

theorem startsName_of_startsEscape {cs : List Char} (h : startsEscape cs = true) :
    startsName cs = true := by
  unfold startsEscape at h
  split at h
  · cases h
  · rename_i cs hline
    have hescape : startsEscape ('\\' :: cs) = true := by
      cases cs with
      | nil => rfl
      | cons c cs =>
          exact startsEscape_backslash (fun heq => hline cs (by rw [heq])) cs
    show (isNameStart '\\' || startsEscape ('\\' :: cs)) = true
    rw [hescape, Bool.or_true]
  · cases h

theorem nameStart_starts (c : Char) (rest : List Char) :
    startsEscape (nameStart c ++ rest) = true ∨
      ((isNameStart c = true ∨ c = '-') ∧ nameStart c = [c]) := by
  rcases nameStart_cases c with hchar | hchar | ⟨_, hline, hchar⟩
  · rw [hchar]
    exact Or.inl (startsEscape_hexEscape c rest)
  · exact Or.inr hchar
  · rw [hchar]
    exact Or.inl (startsEscape_backslash hline rest)

theorem startsName_hyphen {cs : List Char} (hcs : cs ≠ [])
    (h : startsEscape cs = true ∨ exists c ds, cs = c :: ds ∧ (isNameStart c = true ∨ c = '-')) :
    startsName ('-' :: cs) = true := by
  cases cs with
  | nil => exact absurd rfl hcs
  | cons c cs =>
      show (isNameStart c || c == '-' || startsEscape (c :: cs)) = true
      rcases h with hescape | ⟨d, ds, heq, hd⟩
      · rw [hescape, Bool.or_true]
      · rcases List.cons.inj heq with ⟨rfl, rfl⟩
        rcases hd with hd | rfl
        · rw [hd, Bool.true_or, Bool.true_or]
        · rfl

theorem startsName_writeName {cs : List Char} (hcs : cs ≠ []) (rest : List Char) :
    startsName (writeName cs ++ rest) = true := by
  unfold writeName
  split
  · exact absurd rfl hcs
  · exact startsName_of_startsEscape (startsEscape_backslash (by decide) rest)
  · rename_i c cs
    rw [List.append_assoc, List.cons_append]
    rcases nameStart_starts c (cs.flatMap nameChar ++ rest) with hescape | ⟨hname, hchar⟩
    · refine startsName_hyphen ?_ (Or.inl hescape)
      intro hnil
      rw [hnil] at hescape
      cases hescape
    · rw [hchar]
      exact startsName_hyphen (by simp) (Or.inr ⟨c, _, rfl, hname⟩)
  · rename_i c cs hlone hhyphen
    rw [List.append_assoc]
    rcases nameStart_starts c (cs.flatMap nameChar ++ rest) with hescape | ⟨hname, hchar⟩
    · exact startsName_of_startsEscape hescape
    · rw [hchar]
      refine startsName_of_isNameStart _ (hname.resolve_right ?_)
      rintro rfl
      cases cs with
      | nil => exact hlone rfl rfl
      | cons d ds => exact hhyphen d ds rfl rfl

/-!
## Names in a pass
-/

theorem readNameLike_of_url {input rest : List Char}
    (hname : readName input = (['u', 'r', 'l'], '(' :: rest))
    (hquote : startsQuote (rest.dropWhile isBlank) = false) :
    readNameLike input = addressToken rest := by
  have hurl : Text.sameFolded (String.ofList ['u', 'r', 'l']) "url" = true := by decide
  rw [readNameLike_of_open hname, hurl, hquote]
  rfl

theorem nameChar_head (c : Char) :
    exists d ds, nameChar c = d :: ds ∧ (d = '\\' ∨ isNameChar d = true) := by
  rcases nameChar_cases c with hchar | ⟨hname, hchar⟩ | ⟨_, _, hchar⟩
  · exact ⟨'\\', _, hchar, Or.inl rfl⟩
  · exact ⟨c, [], hchar, Or.inr hname⟩
  · exact ⟨'\\', [c], hchar, Or.inl rfl⟩

theorem nameStart_head (c : Char) :
    exists d ds, nameStart c = d :: ds ∧ (d = '\\' ∨ isNameStart d = true ∨ d = '-') := by
  rcases nameStart_cases c with hchar | ⟨hname, hchar⟩ | ⟨_, _, hchar⟩
  · exact ⟨'\\', _, hchar, Or.inl rfl⟩
  · exact ⟨c, [], hchar, Or.inr hname⟩
  · exact ⟨'\\', [c], hchar, Or.inl rfl⟩

theorem not_startsNumber_hyphen {d : Char} (ds : List Char)
    (hd : d = '\\' ∨ isNameStart d = true ∨ d = '-') : startsNumber ('-' :: d :: ds) = false := by
  have hdigit : d.isDigit = false := by
    rcases hd with rfl | hd | rfl
    · rfl
    · exact not_isDigit_of_isNameStart hd
    · rfl
  have hpoint : d ≠ '.' := by
    rintro rfl
    revert hd
    decide
  rw [startsNumber, if_pos (Or.inr rfl), startsFraction_of_ne hpoint, Bool.or_false]
  exact hdigit

theorem head?_flatMap_nameChar {cs rest : List Char} (hrest : rest.head? ≠ some '>') :
    (cs.flatMap nameChar ++ rest).head? ≠ some '>' := by
  cases cs with
  | nil => exact hrest
  | cons c cs =>
      rcases nameChar_head c with ⟨d, ds, hchar, hd⟩
      rw [List.flatMap_cons, hchar]
      intro heq
      rcases Option.some.inj heq with rfl
      revert hd
      decide

theorem startsName_head {c : Char} {cs : List Char} (h : startsName (c :: cs) = true) :
    c = '-' ∨ c = '\\' ∨ isNameStart c = true := by
  unfold startsName at h
  split at h
  · rename_i heq
    exact Or.inl (List.cons.inj heq).1
  · cases h
  · rename_i heq
    rcases List.cons.inj heq with ⟨rfl, rfl⟩
    rcases Bool.or_eq_true_iff.mp h with hstart | hescape
    · exact Or.inr (Or.inr hstart)
    · exact Or.inr (Or.inl (startsEscape_head hescape))
  · cases h

theorem pass_of_name (o : Options) {c : Char} {cs : List Char}
    (hname : startsName (c :: cs) = true) (hnumber : startsNumber (c :: cs) = false)
    (hcdc : ['-', '-', '>'].isPrefixOf (c :: cs) = false) :
    (dialect.pass o c cs).parts = ([(readNameLike (c :: cs)).1], (readNameLike (c :: cs)).2) := by
  rcases startsName_head hname with rfl | rfl | hstart
  · rw [pass_of_claims (s := hyphenScanner) (by simp [scanners]) o rfl]
    show ([(readHyphen ('-' :: cs)).1], (readHyphen ('-' :: cs)).2) = _
    rw [readHyphen, if_neg (by simp [hnumber]), if_neg (by simp [hcdc]), if_pos hname]
  · rw [pass_of_claims (s := backslashScanner) (by simp [scanners]) o rfl]
    show ([(readBackslash ('\\' :: cs)).1], (readBackslash ('\\' :: cs)).2) = _
    rw [readBackslash, if_pos hname]
  · rw [pass_of_claims (s := nameScanner) (by simp [scanners]) o hstart]
    rfl

/-- A name that does not start with a hyphen is written with an escape or a name
start in front. -/
theorem writeName_shape {cs : List Char} (hcs : cs ≠ []) (rest : List Char) :
    (exists c ds, writeName cs ++ rest = c :: ds ∧ (c = '\\' ∨ isNameStart c = true)) ∨
      exists d ds, cs = '-' :: d :: ds := by
  unfold writeName
  split
  · exact absurd rfl hcs
  · exact Or.inl ⟨'\\', _, rfl, Or.inl rfl⟩
  · rename_i d ds
    exact Or.inr ⟨d, ds, rfl⟩
  · rename_i d ds hlone hhyphen
    have hd : d ≠ '-' := by
      rintro rfl
      cases ds with
      | nil => exact hlone rfl rfl
      | cons e es => exact hhyphen e es rfl rfl
    rcases nameStart_cases d with hchar | ⟨hstart, hchar⟩ | ⟨_, _, hchar⟩
    · rw [hchar]
      exact Or.inl ⟨'\\', _, rfl, Or.inl rfl⟩
    · rw [hchar]
      exact Or.inl ⟨d, _, rfl, Or.inr (hstart.resolve_right hd)⟩
    · rw [hchar]
      exact Or.inl ⟨'\\', _, rfl, Or.inl rfl⟩

theorem writeName_hyphen (d : Char) (ds rest : List Char) :
    writeName ('-' :: d :: ds) ++ rest = '-' :: (nameStart d ++ (ds.flatMap nameChar ++ rest)) := by
  rw [writeName, List.append_assoc, List.cons_append]

theorem ne_of_startsPlain {c d : Char} (hc : c = '\\' ∨ isNameStart c = true) (hd : d ≠ '\\')
    (hstart : isNameStart d = false) : c ≠ d := by
  rintro rfl
  exact hc.elim hd fun h => absurd h (by simp [hstart])

theorem not_startsNumber_writeName {cs : List Char} (hcs : cs ≠ []) (rest : List Char) :
    startsNumber (writeName cs ++ rest) = false := by
  rcases writeName_shape hcs rest with ⟨c, ds, heq, hc⟩ | ⟨d, ds, rfl⟩
  · have hdigit : c.isDigit = false := by
      rcases hc with rfl | hc
      · rfl
      · exact not_isDigit_of_isNameStart hc
    have hplus : c ≠ '+' := ne_of_startsPlain hc (by decide) (by decide)
    have hhyphen : c ≠ '-' := ne_of_startsPlain hc (by decide) (by decide)
    have hpoint : c ≠ '.' := ne_of_startsPlain hc (by decide) (by decide)
    rw [heq, startsNumber, if_neg (not_or.mpr ⟨hplus, hhyphen⟩), hdigit,
      startsFraction_of_ne hpoint]
    rfl
  · rcases nameStart_head d with ⟨e, es, hchar, he⟩
    rw [writeName_hyphen, hchar]
    exact not_startsNumber_hyphen _ he

theorem pass_of_writeName (o : Options) {cs rest : List Char} (hcs : cs ≠ [])
    (hcdc : ['-', '-', '>'].isPrefixOf (writeName cs ++ rest) = false) {c : Char}
    {ds : List Char} (hinput : writeName cs ++ rest = c :: ds) :
    (dialect.pass o c ds).parts =
      ([(readNameLike (writeName cs ++ rest)).1], (readNameLike (writeName cs ++ rest)).2) := by
  have hname := startsName_writeName hcs rest
  have hnumber := not_startsNumber_writeName hcs rest
  rw [hinput] at hname hnumber hcdc ⊢
  exact pass_of_name o hname hnumber hcdc

theorem not_cdc_nameStart (c : Char) {rest : List Char} (hrest : rest.head? ≠ some '>') :
    ['-', '-', '>'].isPrefixOf ('-' :: (nameStart c ++ rest)) = false := by
  rcases nameStart_cases c with hchar | ⟨_, hchar⟩ | ⟨_, _, hchar⟩
  · rw [hchar]
    simp [List.isPrefixOf, hexEscape]
  · rw [hchar]
    cases rest with
    | nil => simp [List.isPrefixOf]
    | cons e rest =>
        have he : '>' ≠ e := fun heq => hrest (by rw [heq]; rfl)
        simp [List.isPrefixOf, he]
  · rw [hchar]
    simp [List.isPrefixOf]

theorem not_cdc_writeName {cs rest : List Char} (hcs : cs ≠ []) (hrest : rest.head? ≠ some '>') :
    ['-', '-', '>'].isPrefixOf (writeName cs ++ rest) = false := by
  rcases writeName_shape hcs rest with ⟨c, ds, heq, hc⟩ | ⟨d, ds, rfl⟩
  · have hhyphen : c ≠ '-' := ne_of_startsPlain hc (by decide) (by decide)
    rw [heq]
    simp [List.isPrefixOf, Ne.symm hhyphen]
  · rw [writeName_hyphen]
    exact not_cdc_nameStart d (head?_flatMap_nameChar hrest)

theorem pass_writeName (o : Options) {cs rest : List Char} (hcs : cs ≠ [])
    (hrest : rest.head? ≠ some '>') {c : Char} {ds : List Char}
    (hinput : writeName cs ++ rest = c :: ds) :
    (dialect.pass o c ds).parts =
      ([(readNameLike (writeName cs ++ rest)).1], (readNameLike (writeName cs ++ rest)).2) :=
  pass_of_writeName o hcs (not_cdc_writeName hcs hrest) hinput

end Css
end StyleTokens
