import StyleTokens.Proofs.Css.ReadBack.Numeral
import StyleTokens.Proofs.Dialect.ReadBack

/-!
# Which texts a written token stands apart from

A written token may be followed by any text.  It is read back in front of this
text exactly if the text does not go on with it: no reader stops where it could
have gone on, so a token that is emitted in front of a text stands apart from it.
-/

namespace StyleTokens
namespace Css

open Encoding

/-!
## What readers leave
-/

theorem startsHashName_readName (cs : List Char) : startsHashName (readName cs).2 = false := by
  fun_induction readName cs with
  | case1 => rfl
  | case2 c cs _ _ ih => exact ih
  | case3 c cs _ _ _ _ ih => exact ih
  | case4 c cs hname hescape =>
      rw [startsHashName, Bool.or_eq_false_iff]
      exact ⟨by simpa using hname, by simpa using hescape⟩

theorem readName_eq_nil_iff (rest : List Char) :
    readName rest = ([], rest) ↔ startsHashName rest = false := by
  constructor
  · intro h
    have hleft := startsHashName_readName rest
    rwa [h] at hleft
  · intro h
    cases rest with
    | nil => exact readName_nil
    | cons c cs =>
        rw [startsHashName, Bool.or_eq_false_iff] at h
        rw [readName_cons, if_neg (by simp [h.1]), if_neg (by simp [h.2])]

theorem startsDigit_dropWhile (cs : List Char) :
    startsDigit (cs.dropWhile Char.isDigit) = false := by
  induction cs with
  | nil => rfl
  | cons c cs ih =>
      rw [List.dropWhile_cons]
      split
      · exact ih
      · rename_i hc
        simpa [startsDigit] using hc

/-- Nothing that could go on with a number is left by its reader. -/
def NumberEnds (cs : List Char) : Prop := startsDigit cs = false ∧ startsFraction cs = false

theorem numberEnds_dropWhile (cs : List Char) :
    NumberEnds (cs.dropWhile Text.isDigitOrPoint) := by
  induction cs with
  | nil => exact ⟨rfl, rfl⟩
  | cons c cs ih =>
      rw [List.dropWhile_cons]
      split
      · exact ih
      · rename_i hc
        simp only [Text.isDigitOrPoint, Bool.or_eq_true, beq_iff_eq, not_or] at hc
        exact ⟨by simpa [startsDigit] using hc.1, startsFraction_of_ne hc.2 cs⟩

theorem numberEnds_readExponent {text : List Char} {whole : Bool} {cs : List Char}
    (h : NumberEnds cs) : NumberEnds (readExponent text whole cs).rest := by
  cases cs with
  | nil => exact h
  | cons e cs =>
      simp only [readExponent]
      split
      · split
        · split
          · exact numberEnds_dropWhile _
          · rename_i hfraction
            exact ⟨startsDigit_dropWhile _, by simpa using hfraction⟩
        · split
          · exact numberEnds_dropWhile _
          · exact h
      · exact h

theorem startsDigit_splitFraction {cs : List Char} (h : startsDigit cs = false) :
    startsDigit (splitFraction cs).2 = false := by
  rw [splitFraction]
  split
  · exact startsDigit_dropWhile _
  · exact h

theorem numberEnds_readNumeral (cs : List Char) : NumberEnds (readNumeral cs).rest := by
  simp only [readNumeral]
  split
  · exact numberEnds_dropWhile _
  · rename_i hfraction
    refine numberEnds_readExponent ⟨?_, by simpa using hfraction⟩
    exact startsDigit_splitFraction (startsDigit_dropWhile _)

/-!
## Names
-/

theorem ofText_inj {k : Kind} {a b : List Char} : Token.ofText k a = Token.ofText k b ↔ a = b := by
  constructor
  · intro h
    have hpayload : Payload.text (String.ofList a) = .text (String.ofList b) :=
      congrArg Token.payload h
    exact String.ofList_injective (Payload.text.inj hpayload)
  · rintro rfl
    rfl

/-- A name is read with what goes on with it, so it comes back alone exactly if
nothing does. -/
theorem name_alone_iff {k : Kind} {cs rest : List Char} :
    ([Token.ofText k (cs ++ (readName rest).1)], (readName rest).2) =
        ([Token.ofText k cs], rest) ↔ startsHashName rest = false := by
  rw [← readName_eq_nil_iff, Prod.mk.injEq, List.cons.injEq, ofText_inj, Prod.ext_iff]
  simp

end Css

namespace Dialect

/-- A pass that does not depend on the options tells whether a token is read back. -/
theorem readsBack_iff {d : Dialect} {t : Token} {c : Char} {cs rest rest' : List Char}
    {ts : List Token} (hsource : t.source.toList = c :: cs)
    (hpass : forall o, (d.pass o c (cs ++ rest)).parts = (ts, rest')) :
    d.ReadsBack t rest ↔ (ts, rest') = ([t.unplaced], rest) := by
  constructor
  · rintro ⟨c', cs', hsource', hpass'⟩
    rcases List.cons.inj (hsource.symm.trans hsource') with ⟨rfl, rfl⟩
    exact (hpass {}).symm.trans (hpass' {})
  · intro h
    exact ⟨c, cs, hsource, fun o => (hpass o).trans h⟩

end Dialect

namespace Css

open Encoding

theorem readsBack_hash_iff {cs : List Char} (l : Location) (hcs : cs ≠ []) (h : '\x00' ∉ cs)
    (rest : List Char) :
    dialect.ReadsBack ⟨hash, .text (String.ofList cs), l, none⟩ rest ↔
      startsHashName rest = false := by
  have hsource : (Token.source ⟨hash, .text (String.ofList cs), l, none⟩).toList =
      '#' :: hashName cs := toList_encode hash cs
  have hread : readHash ('#' :: (hashName cs ++ rest)) =
      (.ofText hash (cs ++ (readName rest).1), (readName rest).2) := by
    have hname : readName (hashName cs ++ rest) = _ := readName_nameChars h rest
    simp only [readHash, List.drop_succ_cons, List.drop_zero, startsHashName_hashName hcs rest,
      hname]
    rfl
  have hpass : forall o, (dialect.pass o '#' (hashName cs ++ rest)).parts =
      ([.ofText hash (cs ++ (readName rest).1)], (readName rest).2) := by
    intro o
    rw [pass_of_claims (s := hashScanner) (by simp [scanners]) o rfl]
    show ([(readHash _).1], (readHash _).2) = _
    rw [hread]
  rw [Dialect.readsBack_iff hsource hpass]
  exact name_alone_iff

theorem readsBack_atKeyword_iff {cs : List Char} (l : Location) (hcs : cs ≠ [])
    (h : '\x00' ∉ cs) (rest : List Char) :
    dialect.ReadsBack ⟨atKeyword, .text (String.ofList cs), l, none⟩ rest ↔
      startsHashName rest = false := by
  have hsource : (Token.source ⟨atKeyword, .text (String.ofList cs), l, none⟩).toList =
      '@' :: writeName cs := toList_encode atKeyword cs
  have hread : readAt ('@' :: (writeName cs ++ rest)) =
      (.ofText atKeyword (cs ++ (readName rest).1), (readName rest).2) := by
    simp only [readAt, List.drop_succ_cons, List.drop_zero, startsName_writeName hcs rest,
      readName_writeName_append h]
    rfl
  have hpass : forall o, (dialect.pass o '@' (writeName cs ++ rest)).parts =
      ([.ofText atKeyword (cs ++ (readName rest).1)], (readName rest).2) := by
    intro o
    rw [pass_of_claims (s := atScanner) (by simp [scanners]) o rfl]
    show ([(readAt _).1], (readAt _).2) = _
    rw [hread]
  rw [Dialect.readsBack_iff hsource hpass]
  exact name_alone_iff

def startsCdc (cs : List Char) : Bool := ['-', '-', '>'].isPrefixOf cs

theorem startsCdc_iff {input : List Char} :
    startsCdc input = true ↔ exists cs, input = '-' :: '-' :: '>' :: cs := by
  rw [startsCdc, List.isPrefixOf_iff_prefix]
  constructor
  · rintro ⟨cs, rfl⟩
    exact ⟨cs, rfl⟩
  · rintro ⟨cs, rfl⟩
    exact ⟨cs, rfl⟩

theorem kind_addressToken (cs : List Char) :
    (addressToken cs).1.kind = url ∨ (addressToken cs).1.kind = badUrl := by
  simp only [addressToken]
  split
  · exact Or.inl rfl
  · exact Or.inr rfl

theorem kind_readNameLike_of_open {input cs rest : List Char}
    (hname : readName input = (cs, '(' :: rest)) : (readNameLike input).1.kind ≠ ident := by
  rw [readNameLike_of_open hname]
  split
  · rcases kind_addressToken rest with h | h <;> rw [h] <;> exact Kind.ne_of_same (by decide)
  · show function ≠ ident
    exact Kind.ne_of_same (by decide)

theorem readNameLike_ident_iff {input cs rest : List Char}
    (hname : readName input = (cs ++ (readName rest).1, (readName rest).2)) :
    ([(readNameLike input).1], (readNameLike input).2) = ([Token.ofText ident cs], rest) ↔
      startsHashName rest = false ∧ rest.head? ≠ some '(' := by
  constructor
  · intro h
    have hclosed : (readName rest).2.head? ≠ some '(' := by
      intro hopen
      rcases List.head?_eq_some_iff.mp hopen with ⟨tail, htail⟩
      rw [htail] at hname
      apply kind_readNameLike_of_open hname
      exact congrArg Token.kind (List.cons.inj (Prod.mk.inj h).1).1
    rw [readNameLike_of_ident hname hclosed, name_alone_iff] at h
    rw [(readName_eq_nil_iff rest).mpr h] at hclosed
    exact ⟨h, hclosed⟩
  · rintro ⟨hends, hclosed⟩
    rw [(readName_eq_nil_iff rest).mpr hends] at hname
    rw [readNameLike_of_ident hname hclosed, List.append_nil]

theorem readsBack_ident_iff {cs : List Char} (l : Location) (hcs : cs ≠ []) (h : '\x00' ∉ cs)
    (rest : List Char) :
    dialect.ReadsBack ⟨ident, .text (String.ofList cs), l, none⟩ rest ↔
      startsHashName rest = false ∧ rest.head? ≠ some '(' ∧
        startsCdc (writeName cs ++ rest) = false := by
  rcases writeName_head hcs with ⟨c, ds, hwrite, _⟩
  have hsource : (Token.source ⟨ident, .text (String.ofList cs), l, none⟩).toList = c :: ds :=
    (toList_encode ident cs).trans hwrite
  have hinput : writeName cs ++ rest = c :: (ds ++ rest) := by rw [hwrite, List.cons_append]
  cases hcdc : startsCdc (writeName cs ++ rest) with
  | true =>
      rcases startsCdc_iff.mp hcdc with ⟨tail, htail⟩
      rcases List.cons.inj (hinput.symm.trans htail) with ⟨rfl, hrest⟩
      have hpass : forall o, (dialect.pass o '-' (ds ++ rest)).parts = ([.bare cdc], tail) := by
        intro o
        rw [hrest, pass_of_claims (s := hyphenScanner) (by simp [scanners]) o rfl]
        rfl
      rw [Dialect.readsBack_iff hsource hpass]
      constructor
      · intro heq
        have hkind : cdc = ident := congrArg Token.kind (List.cons.inj (Prod.mk.inj heq).1).1
        exact absurd hkind (Kind.ne_of_same (by decide))
      · rintro ⟨_, _, hfalse⟩
        cases hfalse
  | false =>
      have hpass := fun o => pass_of_writeName o hcs hcdc hinput
      rw [Dialect.readsBack_iff hsource hpass]
      have hiff := readNameLike_ident_iff (readName_writeName_append h rest)
      exact hiff.trans (by simp)

theorem readsBack_function_iff {cs : List Char} (l : Location) (hcs : cs ≠ [])
    (h : '\x00' ∉ cs) (rest : List Char) :
    dialect.ReadsBack ⟨function, .text (String.ofList cs), l, none⟩ rest ↔
      (Text.sameFolded (String.ofList cs) "url" && !startsQuote (rest.dropWhile isBlank)) =
        false := by
  rcases writeName_head hcs with ⟨c, ds, hwrite, _⟩
  have hsource : (Token.source ⟨function, .text (String.ofList cs), l, none⟩).toList =
      c :: (ds ++ ['(']) := by
    have hencode : (Token.source ⟨function, .text (String.ofList cs), l, none⟩).toList =
        writeName cs ++ ['('] := toList_encode function cs
    rw [hencode, hwrite, List.cons_append]
  have hinput : writeName cs ++ '(' :: rest = c :: (ds ++ ['('] ++ rest) := by simp [hwrite]
  have hname := readName_writeName h (readName_of_end rest (c := '(') (by decide) (by decide))
  have hopen : ('(' :: rest).head? ≠ some '>' := by simp
  have hpass := fun o => pass_writeName o hcs hopen hinput
  rw [Dialect.readsBack_iff hsource hpass, readNameLike_of_open hname]
  cases hurl :
    Text.sameFolded (String.ofList cs) "url" && !startsQuote (rest.dropWhile isBlank) with
  | false => exact iff_of_true rfl rfl
  | true =>
      refine iff_of_false ?_ (by decide)
      intro heq
      have hkind : (addressToken rest).1.kind = function :=
        congrArg Token.kind (List.cons.inj (Prod.mk.inj heq).1).1
      rcases kind_addressToken rest with hk | hk
      · exact absurd (hk.symm.trans hkind) (Kind.ne_of_same (by decide))
      · exact absurd (hk.symm.trans hkind) (Kind.ne_of_same (by decide))

/-!
## Tokens that end by themselves
-/

theorem readsBack_url {cs : List Char} (l : Location) (h : '\x00' ∉ cs) (rest : List Char) :
    dialect.ReadsBack ⟨url, .text (String.ofList cs), l, none⟩ rest := by
  refine ⟨'u', 'r' :: 'l' :: '(' :: (cs.flatMap addressChar ++ [')']), toList_encode url cs,
    fun o => ?_⟩
  rw [pass_of_claims (s := nameScanner) (by simp [scanners]) o rfl]
  show ([(readNameLike (writeAddress cs ++ rest)).1],
    (readNameLike (writeAddress cs ++ rest)).2) = _
  rw [readNameLike_writeAddress h]
  rfl

theorem readsBack_string {cs : List Char} (l : Location) (rest : List Char) :
    dialect.ReadsBack ⟨string, .text (String.ofList cs), l, none⟩ rest := by
  refine ⟨'"', cs.flatMap quotedChar ++ ['"'], toList_encode string cs, fun o => ?_⟩
  have hread : readQuoted ('"' :: (cs.flatMap quotedChar ++ ['"'] ++ rest)) =
      (.ofText string cs, rest) := by
    rw [List.append_assoc, List.singleton_append]
    simp only [readQuoted, readString_writeQuoted]
  rw [pass_of_claims (s := stringScanner) (by simp [scanners]) o rfl]
  show ([(readQuoted _).1], (readQuoted _).2) = _
  rw [hread]
  rfl

theorem readsBack_punctuation {c : Char} {k : Kind} (l : Location)
    (hk : punctuation? c = some k) (hsource : (k.encode (k.raw.getD "")).toList = [c])
    (rest : List Char) : dialect.ReadsBack ⟨k, .none, l, none⟩ rest := by
  refine ⟨c, [], hsource, fun o => ?_⟩
  have hclaims : punctuationScanner.claims (c :: ([] ++ rest)) = true := by
    show (punctuation? c).isSome = true
    rw [hk]
    rfl
  rw [pass_of_claims (s := punctuationScanner) (by simp [scanners]) o hclaims]
  show ([Token.bare ((punctuation? c).getD delim)], rest) = _
  rw [hk]
  rfl

theorem readsBack_cdo (l : Location) (rest : List Char) :
    dialect.ReadsBack ⟨cdo, .none, l, none⟩ rest := by
  have hsource : (cdo.encode "<!--").toList = ['<', '!', '-', '-'] := by decide
  refine ⟨'<', ['!', '-', '-'], hsource, fun o => ?_⟩
  exact pass_of_claims (s := lessScanner) (by simp [scanners]) o rfl

theorem readsBack_cdc (l : Location) (rest : List Char) :
    dialect.ReadsBack ⟨cdc, .none, l, none⟩ rest := by
  have hsource : (cdc.encode "-->").toList = ['-', '-', '>'] := by decide
  refine ⟨'-', ['-', '>'], hsource, fun o => ?_⟩
  exact pass_of_claims (s := hyphenScanner) (by simp [scanners]) o rfl

theorem dropWhile_isBlank_iff (cs : List Char) :
    cs.dropWhile isBlank = cs ↔ startsBlank cs = false := by
  cases cs with
  | nil => exact iff_of_true rfl rfl
  | cons c cs =>
      rw [List.dropWhile_cons]
      show _ ↔ isBlank c = false
      split
      · rename_i hc
        refine iff_of_false ?_ (by simp [hc])
        intro heq
        have hlen := (List.dropWhile_suffix (l := cs) isBlank).length_le
        rw [heq, List.length_cons] at hlen
        omega
      · rename_i hc
        exact iff_of_true rfl (by simpa using hc)

theorem readsBack_blank_iff (l : Location) (rest : List Char) :
    dialect.ReadsBack ⟨whitespace, .none, l, none⟩ rest ↔ startsBlank rest = false := by
  have hsource : (Token.source ⟨whitespace, .none, l, none⟩).toList = [' '] := by
    show (whitespace.encode " ").toList = [' ']
    decide
  have hpass : forall o, (dialect.pass o ' ' ([] ++ rest)).parts =
      ([.bare whitespace], rest.dropWhile isBlank) := by
    intro o
    rw [pass_of_claims (s := blankScanner) (by simp [scanners]) o rfl]
    rfl
  rw [Dialect.readsBack_iff hsource hpass, ← dropWhile_isBlank_iff, Prod.mk.injEq]
  exact and_iff_right rfl

/-!
## Numbers
-/

def goesOnNumber (rest : List Char) : Bool :=
  startsDigit rest || startsFraction rest || startsName rest || rest.head? == some '%'

theorem startsExponent_of_startsName {rest : List Char} (h : startsName rest = false) :
    startsExponent rest = false := by
  cases rest with
  | nil => rfl
  | cons c cs =>
      have hc : (c == 'e' || c == 'E') = false := by
        rw [Bool.eq_false_iff]
        intro hmark
        have hstart : isNameStart c = true := by
          rcases Bool.or_eq_true_iff.mp hmark with hc | hc
          · rw [eq_of_beq hc]
            decide
          · rw [eq_of_beq hc]
            decide
        rw [startsName_of_isNameStart cs hstart] at h
        cases h
      rw [startsExponent, hc, Bool.false_and]

theorem withUnit_of_ends {n : Number} {rest : List Char} (hname : startsName rest = false)
    (hpercent : rest.head? ≠ some '%') : withUnit n rest = (.of number (.number n), rest) := by
  cases rest with
  | nil => rfl
  | cons c cs =>
      have hc : c ≠ '%' := fun heq => hpercent (by rw [heq]; rfl)
      unfold withUnit
      rw [if_neg (by simp [hname])]
      exact if_neg hc

theorem withUnit_number {n m : Number} {cs rest : List Char}
    (h : withUnit n cs = (.of number (.number m), rest)) :
    rest = cs ∧ startsName rest = false ∧ rest.head? ≠ some '%' := by
  unfold withUnit at h
  split at h
  · have hkind : dimension = number := congrArg (fun r => r.1.kind) h
    exact absurd hkind (Kind.ne_of_same (by decide))
  · rename_i hname
    split at h
    · obtain rfl : [] = rest := congrArg Prod.snd h
      exact ⟨rfl, rfl, by simp⟩
    · rename_i c cs
      split at h
      · have hkind : percentage = number := congrArg (fun r => r.1.kind) h
        exact absurd hkind (Kind.ne_of_same (by decide))
      · rename_i hc
        obtain rfl : c :: cs = rest := congrArg Prod.snd h
        refine ⟨rfl, by simpa using hname, ?_⟩
        intro hhead
        exact hc (Option.some.inj hhead)

theorem readNumeric_sound {cs rest : List Char} {t : Token} (h : readNumeric cs = (t, rest))
    (hkind : t.kind ≠ badNumber) :
    exists n, withUnit n (readNumeral cs).rest = (t, rest) := by
  simp only [readNumeric] at h
  split at h
  · obtain rfl := congrArg Prod.fst h
    exact absurd rfl hkind
  · exact ⟨_, h⟩

theorem readsBack_number_iff {n : Number} (hn : Printed n) (l : Location) (rest : List Char) :
    dialect.ReadsBack ⟨number, .number n, l, none⟩ rest ↔ goesOnNumber rest = false := by
  rcases exists_parts hn with ⟨p, htext, hread⟩
  rcases p.text_head with ⟨c, cs, hhead, _⟩
  have hsource : (Token.source ⟨number, .number n, l, none⟩).toList = c :: cs := by
    rw [← hhead, ← htext]
    show (number.encode n.text).toList = _
    simp [Kind.encode, number]
  have hinput : p.text ++ rest = c :: (cs ++ rest) := by rw [hhead, List.cons_append]
  rw [Dialect.readsBack_iff hsource fun o => pass_parts o p rest hinput]
  constructor
  · intro h
    have hresult : readNumeric (p.text ++ rest) = (.of number (.number n), rest) :=
      Prod.ext (List.cons.inj (Prod.mk.inj h).1).1 (Prod.mk.inj h).2
    have hkind : number ≠ badNumber := Kind.ne_of_same (by decide)
    rcases readNumeric_sound hresult hkind with ⟨m, hm⟩
    rcases withUnit_number hm with ⟨hrest, hname, hpercent⟩
    have hends := numberEnds_readNumeral (p.text ++ rest)
    rw [← hrest] at hends
    simp [goesOnNumber, hends.1, hends.2, hname, hpercent]
  · intro h
    simp only [goesOnNumber, Bool.or_eq_false_iff, beq_eq_false_iff_ne] at h
    rcases h with ⟨⟨⟨hdigit, hfraction⟩, hname⟩, hpercent⟩
    have hends : p.EndsBefore rest :=
      ⟨hdigit, hfraction, fun _ => startsExponent_of_startsName hname⟩
    rw [readNumeric_parts hread hends, withUnit_of_ends hname hpercent]
    rfl

theorem readsBack_percentage {n : Number} (hn : Printed n) (l : Location) (rest : List Char) :
    dialect.ReadsBack ⟨percentage, .dimension n "%", l, none⟩ rest := by
  rcases exists_parts hn with ⟨p, htext, hread⟩
  rcases p.text_head with ⟨c, cs, hhead, _⟩
  have hsource : (Token.source ⟨percentage, .dimension n "%", l, none⟩).toList =
      c :: (cs ++ ['%']) := by
    rw [← List.cons_append, ← hhead, ← htext]
    show (percentage.encode (n.text ++ "%")).toList = _
    simp [Kind.encode, percentage]
  have hinput : p.text ++ '%' :: rest = c :: (cs ++ ['%'] ++ rest) := by simp [hhead]
  have hends : p.EndsBefore ('%' :: rest) := ⟨rfl, rfl, fun _ => rfl⟩
  refine ⟨c, cs ++ ['%'], hsource, fun o => ?_⟩
  rw [pass_parts o p _ hinput, readNumeric_parts hread hends]
  rfl

/-!
## Units
-/

def isPlainName (cs : List Char) : Bool := startsName cs && cs.all isNameChar

theorem isPlainName_iff {cs : List Char} :
    isPlainName cs = true ↔ startsName cs = true ∧ forall c, c ∈ cs -> isNameChar c = true := by
  rw [isPlainName, Bool.and_eq_true, List.all_eq_true]

theorem startsEscape_of_isNameChar {c : Char} (hc : isNameChar c = true) (cs : List Char) :
    startsEscape (c :: cs) = false := by
  apply startsEscape_of_ne
  rintro rfl
  exact absurd hc (by decide)

theorem startsName_append_of_plain {cs : List Char} (h : isPlainName cs = true)
    (rest : List Char) : startsName (cs ++ rest) = true := by
  rw [isPlainName_iff] at h
  rcases h with ⟨hname, hall⟩
  unfold startsName at hname
  split at hname
  · rename_i c cs
    rw [startsEscape_of_isNameChar (hall c (by simp)), Bool.or_false] at hname
    show (isNameStart c || c == '-' || startsEscape (c :: (cs ++ rest))) = true
    rw [hname, Bool.true_or]
  · cases hname
  · rename_i c cs _ _
    rw [startsEscape_of_isNameChar (hall c (by simp)), Bool.or_false] at hname
    exact startsName_of_isNameStart _ hname
  · cases hname

theorem readName_of_plain {cs : List Char} (hall : forall c, c ∈ cs -> isNameChar c = true)
    (rest : List Char) : readName (cs ++ rest) = (cs ++ (readName rest).1, (readName rest).2) := by
  induction cs with
  | nil => rfl
  | cons c cs ih =>
      rw [List.cons_append, readName_cons, if_pos (hall c List.mem_cons_self),
        ih fun d hd => hall d (List.mem_cons_of_mem c hd)]
      rfl

theorem numberEnds_of_plain {cs : List Char} (h : isPlainName cs = true) (rest : List Char) :
    NumberEnds (cs ++ rest) := by
  have hname := startsName_append_of_plain h rest
  rw [isPlainName_iff] at h
  cases cs with
  | nil => cases h.1
  | cons c cs =>
      have hc : isNameChar c = true := h.2 c List.mem_cons_self
      have hne : forall d, isNameChar d = false -> c ≠ d := by
        rintro d hd rfl
        rw [hc] at hd
        cases hd
      refine ⟨?_, startsFraction_of_ne (hne '.' (by decide)) _⟩
      rcases startsName_head hname with rfl | rfl | hstart
      · rfl
      · rfl
      · exact not_isDigit_of_isNameStart hstart

theorem readName_length_le (cs : List Char) :
    (readName cs).1.length + (readName cs).2.length ≤ cs.length := by
  fun_induction readName cs with
  | case1 => exact Nat.le_refl 0
  | case2 c cs _ found ih =>
      show (readName cs).1.length + 1 + (readName cs).2.length ≤ cs.length + 1
      omega
  | case3 c cs _ _ escaped found ih =>
      have hescape : escaped.2.length ≤ cs.length := readEscape_length_le cs
      show (readName escaped.2).1.length + 1 + (readName escaped.2).2.length ≤ cs.length + 1
      omega
  | case4 c cs => simp

theorem length_readExponent {cs : List Char} (h : startsExponent cs = true) (text : List Char)
    (whole : Bool) : (readExponent text whole cs).rest.length < cs.length := by
  cases cs with
  | nil => cases h
  | cons e cs =>
      have hsign : (Text.splitSign cs).2 <:+ cs := Text.splitSign_suffix cs
      have hdigits : (Text.splitSign cs).2.dropWhile Char.isDigit <:+ cs :=
        (List.dropWhile_suffix _).trans hsign
      rw [startsExponent, Bool.and_eq_true] at h
      have he : e = 'e' ∨ e = 'E' := by simpa using h.1
      simp only [readExponent, if_pos he]
      split
      · split
        · exact Nat.lt_succ_of_le ((List.dropWhile_suffix _).trans hdigits).length_le
        · exact Nat.lt_succ_of_le hdigits.length_le
      · rename_i hdigit
        have hmark : (Text.splitSign cs).1 ≠ [] := by
          rcases Bool.or_eq_true_iff.mp h.2 with hd | hs
          · exact absurd hd hdigit
          · simpa using hs
        rw [if_pos hmark]
        exact Nat.lt_succ_of_le ((List.dropWhile_suffix _).trans hsign).length_le

def goesOnUnit (n : Number) (cs rest : List Char) : Bool :=
  startsHashName rest || (!n.text.toList.contains 'e' && startsExponent (cs ++ rest))

theorem withUnit_dimension {n m : Number} {cs rest input : List Char}
    (h : withUnit n input = (.of dimension (.dimension m (String.ofList cs)), rest)) :
    readName input = (cs, rest) := by
  unfold withUnit at h
  split at h
  · have hpayload : Payload.dimension n (String.ofList (readName input).1) =
        .dimension m (String.ofList cs) := congrArg (fun r => r.1.payload) h
    have hname : (readName input).1 = cs :=
      String.ofList_injective (Payload.dimension.inj hpayload).2
    have hrest : (readName input).2 = rest := congrArg Prod.snd h
    exact Prod.ext hname hrest
  · split at h
    · have hkind : number = dimension := congrArg (fun r => r.1.kind) h
      exact absurd hkind (Kind.ne_of_same (by decide))
    · split at h
      · have hkind : percentage = dimension := congrArg (fun r => r.1.kind) h
        exact absurd hkind (Kind.ne_of_same (by decide))
      · have hkind : number = dimension := congrArg (fun r => r.1.kind) h
        exact absurd hkind (Kind.ne_of_same (by decide))

/-- The unit is read up to its end only, and none of it as an exponent. -/
theorem ends_of_readNumeric {n : Number} {p : NumeralParts} {cs rest : List Char}
    (hnumber : NumberEnds (cs ++ rest))
    (h : readNumeric (p.text ++ (cs ++ rest)) =
      (.of dimension (.dimension n (String.ofList cs)), rest)) :
    startsHashName rest = false ∧
      (p.exponent = none -> startsExponent (cs ++ rest) = false) := by
  have hkind : dimension ≠ badNumber := Kind.ne_of_same (by decide)
  rcases readNumeric_sound h hkind with ⟨m, hm⟩
  have hname := withUnit_dimension hm
  have hleft := startsHashName_readName (readNumeral (p.text ++ (cs ++ rest))).rest
  have hlen := readName_length_le (readNumeral (p.text ++ (cs ++ rest))).rest
  rw [hname] at hleft hlen
  refine ⟨hleft, ?_⟩
  intro hmark
  rw [Bool.eq_false_iff]
  intro hstarts
  have hnone : p.exponentText = [] := by simp [NumeralParts.exponentText, hmark]
  have hread : readNumeral (p.text ++ (cs ++ rest)) = _ :=
    p.readNumeral_text_append (by rw [hnone]; exact hnumber.1) (by rw [hnone]; exact hnumber.2)
  have hshort := length_readExponent hstarts (p.signText ++ p.whole ++ p.fractionText)
    p.fraction.isEmpty
  rw [hread, hnone, List.nil_append] at hlen
  rw [List.length_append] at hshort
  exact absurd hlen (Nat.not_le_of_lt hshort)

theorem readNumeric_dimension {n : Number} {p : NumeralParts} {cs rest : List Char}
    (hread : Number.read? p.text p.isWhole = some n) (hplain : isPlainName cs = true)
    (hname : startsHashName rest = false)
    (hexponent : p.exponent = none -> startsExponent (cs ++ rest) = false) :
    readNumeric (p.text ++ (cs ++ rest)) =
      (.of dimension (.dimension n (String.ofList cs)), rest) := by
  have hnumber := numberEnds_of_plain hplain rest
  have hstart := startsName_append_of_plain hplain rest
  rw [isPlainName_iff] at hplain
  have hunit : readName (cs ++ rest) = (cs, rest) := by
    rw [readName_of_plain hplain.2, (readName_eq_nil_iff rest).mpr hname, List.append_nil]
  rw [readNumeric_parts hread ⟨hnumber.1, hnumber.2, hexponent⟩, withUnit.eq_def, if_pos hstart,
    hunit]

theorem readsBack_dimension_iff {n : Number} (hn : Printed n) {cs : List Char}
    (hplain : isPlainName cs = true) (l : Location) (rest : List Char) :
    dialect.ReadsBack ⟨dimension, .dimension n (String.ofList cs), l, none⟩ rest ↔
      goesOnUnit n cs rest = false := by
  rcases exists_parts hn with ⟨p, htext, hread⟩
  rcases p.text_head with ⟨c, ds, hhead, _⟩
  have hsource : (Token.source ⟨dimension, .dimension n (String.ofList cs), l, none⟩).toList =
      c :: (ds ++ cs) := by
    rw [← List.cons_append, ← hhead, ← htext]
    show (dimension.encode (n.text ++ String.ofList cs)).toList = _
    simp [Kind.encode, dimension]
  have hinput : p.text ++ (cs ++ rest) = c :: (ds ++ cs ++ rest) := by simp [hhead]
  have hends : goesOnUnit n cs rest = false ↔ startsHashName rest = false ∧
      (p.exponent = none -> startsExponent (cs ++ rest) = false) := by
    rw [goesOnUnit, Bool.or_eq_false_iff, Bool.and_eq_false_imp, Bool.not_eq_true', htext,
      p.contains_e_iff]
  rw [Dialect.readsBack_iff hsource fun o => pass_parts o p _ hinput, hends]
  constructor
  · intro h
    rcases Prod.mk.inj h with ⟨htokens, hrest⟩
    exact ends_of_readNumeric (numberEnds_of_plain hplain rest)
      (Prod.ext (List.cons.inj htokens).1 hrest)
  · rintro ⟨hname, hexponent⟩
    rw [readNumeric_dimension hread hplain hname hexponent]
    rfl

/-!
## Characters of their own
-/

def goesOnLone (c : Char) (rest : List Char) : Bool :=
  match c with
  | '+' => startsNumber ('+' :: rest)
  | '.' => startsNumber ('.' :: rest)
  | '-' => startsNumber ('-' :: rest) || startsCdc ('-' :: rest) || startsName ('-' :: rest)
  | '#' => startsHashName rest
  | '@' => startsName rest
  | '<' => ['<', '!', '-', '-'].isPrefixOf ('<' :: rest)
  | '/' => Text.startsComment ('/' :: rest)
  | _ => false

theorem kind_withUnit (n : Number) (cs : List Char) : (withUnit n cs).1.kind ≠ delim := by
  unfold withUnit
  split
  · show dimension ≠ delim
    exact Kind.ne_of_same (by decide)
  · split
    · show number ≠ delim
      exact Kind.ne_of_same (by decide)
    · split
      · show percentage ≠ delim
        exact Kind.ne_of_same (by decide)
      · show number ≠ delim
        exact Kind.ne_of_same (by decide)

theorem kind_readNumeric (cs : List Char) : (readNumeric cs).1.kind ≠ delim := by
  simp only [readNumeric]
  split
  · show badNumber ≠ delim
    exact Kind.ne_of_same (by decide)
  · exact kind_withUnit _ _

theorem kind_readNameLike (cs : List Char) : (readNameLike cs).1.kind ≠ delim := by
  by_cases hopen : (readName cs).2.head? = some '('
  · rcases List.head?_eq_some_iff.mp hopen with ⟨tail, htail⟩
    rw [readNameLike_of_open (Prod.ext rfl htail)]
    split
    · rcases kind_addressToken tail with h | h <;> rw [h] <;> exact Kind.ne_of_same (by decide)
    · show function ≠ delim
      exact Kind.ne_of_same (by decide)
  · rw [readNameLike_of_ident rfl hopen]
    show ident ≠ delim
    exact Kind.ne_of_same (by decide)

theorem alone_of_kind {t : Token} {c : Char} {rest rest' : List Char} (hkind : t.kind ≠ delim) :
    ([t], rest') ≠ ([Token.of delim (.char c)], rest) := by
  intro h
  obtain rfl : t = Token.of delim (.char c) := (List.cons.inj (Prod.mk.inj h).1).1
  exact hkind rfl

theorem readNumberOrDelim_alone_iff (c : Char) (rest : List Char) :
    ([(readNumberOrDelim (c :: rest)).1], (readNumberOrDelim (c :: rest)).2) =
        ([Token.of delim (.char c)], rest) ↔ startsNumber (c :: rest) = false := by
  rw [readNumberOrDelim]
  cases hnumber : startsNumber (c :: rest) with
  | true => exact iff_of_false (alone_of_kind (kind_readNumeric _)) (by decide)
  | false => exact iff_of_true rfl rfl

theorem readHyphen_alone_iff (rest : List Char) :
    ([(readHyphen ('-' :: rest)).1], (readHyphen ('-' :: rest)).2) =
        ([Token.of delim (.char '-')], rest) ↔ goesOnLone '-' rest = false := by
  show _ ↔ (startsNumber ('-' :: rest) || startsCdc ('-' :: rest) || startsName ('-' :: rest)) =
    false
  rw [readHyphen, ← startsCdc]
  cases hnumber : startsNumber ('-' :: rest) with
  | true => exact iff_of_false (alone_of_kind (kind_readNumeric _)) (by simp)
  | false =>
      cases hcdc : startsCdc ('-' :: rest) with
      | true =>
          have hkind : cdc ≠ delim := Kind.ne_of_same (by decide)
          exact iff_of_false (alone_of_kind hkind) (by simp)
      | false =>
          cases hname : startsName ('-' :: rest) with
          | true => exact iff_of_false (alone_of_kind (kind_readNameLike _)) (by simp)
          | false => exact iff_of_true rfl rfl

theorem readMarked_alone_iff {k : Kind} {m : Char} {rest : List Char} {starts : Bool}
    (hkind : k ≠ delim) (name : List Char × List Char) :
    ([(if starts then (Token.ofText k name.1, name.2) else readDelim (m :: rest)).1],
        (if starts then (Token.ofText k name.1, name.2) else readDelim (m :: rest)).2) =
      ([Token.of delim (.char m)], rest) ↔ starts = false := by
  cases starts with
  | true => exact iff_of_false (alone_of_kind hkind) (by decide)
  | false => exact iff_of_true rfl rfl

theorem readLess_alone_iff (rest : List Char) :
    ([(readLess ('<' :: rest)).1], (readLess ('<' :: rest)).2) =
        ([Token.of delim (.char '<')], rest) ↔
      ['<', '!', '-', '-'].isPrefixOf ('<' :: rest) = false := by
  rw [readLess]
  cases hcdo : ['<', '!', '-', '-'].isPrefixOf ('<' :: rest) with
  | true =>
      have hkind : cdo ≠ delim := Kind.ne_of_same (by decide)
      exact iff_of_false (alone_of_kind hkind) (by decide)
  | false => exact iff_of_true rfl rfl

theorem comment_alone_iff (o : Options) (cs : List Char) :
    (commentScanner.scan o ('/' :: '*' :: cs)).parts =
        ([.of delim (.char '/')], '*' :: cs) ↔ goesOnLone '/' ('*' :: cs) = false := by
  refine iff_of_false ?_ (by simp [goesOnLone, Text.startsComment])
  intro h
  have htokens : (if o.keepComments then [Token.ofText comment (Text.readComment cs).1]
      else []) = [Token.of delim (.char '/')] := (Prod.mk.inj h).1
  split at htokens
  · have hkind : comment = delim := congrArg Token.kind (List.cons.inj htokens).1
    exact absurd hkind (Kind.ne_of_same (by decide))
  · cases htokens

theorem not_goesOnLone_of_unclaimed {c : Char} {rest : List Char}
    (h : forall s, s ∈ scanners -> s.claims (c :: rest) = false) :
    goesOnLone c rest = false := by
  have hclaimed : forall s, s ∈ scanners -> s.claims (c :: rest) = true -> False := by
    intro s hs hclaims
    rw [h s hs] at hclaims
    cases hclaims
  unfold goesOnLone
  split
  · exact (hclaimed plusScanner (by simp [scanners]) rfl).elim
  · exact (hclaimed pointScanner (by simp [scanners]) rfl).elim
  · exact (hclaimed hyphenScanner (by simp [scanners]) rfl).elim
  · exact (hclaimed hashScanner (by simp [scanners]) rfl).elim
  · exact (hclaimed atScanner (by simp [scanners]) rfl).elim
  · exact (hclaimed lessScanner (by simp [scanners]) rfl).elim
  · exact h commentScanner (by simp [scanners])
  · rfl

theorem pass_lone_iff (o : Options) {c : Char} (hc : isLone c = true) (rest : List Char) :
    (dialect.pass o c rest).parts = ([.of delim (.char c)], rest) ↔ goesOnLone c rest = false := by
  rcases claimed_or_unclaimed c rest with ⟨s, hs, hclaims⟩ | hnone
  · rw [pass_of_claims hs o hclaims]
    simp only [scanners, List.mem_cons, List.not_mem_nil, or_false] at hs
    rcases hs with
      rfl | rfl | rfl | rfl | rfl | rfl | rfl | rfl | rfl | rfl | rfl | rfl | rfl
    · rcases isBlank_cases hclaims with rfl | rfl | rfl <;> exact absurd hc (by decide)
    · rcases punctuation?_cases hclaims with
        rfl | rfl | rfl | rfl | rfl | rfl | rfl | rfl | rfl <;> exact absurd hc (by decide)
    · rcases (startsWith_cons rest).mp hclaims with rfl
      exact readNumberOrDelim_alone_iff '+' rest
    · rcases (startsWith_cons rest).mp hclaims with rfl
      exact readHyphen_alone_iff rest
    · have hdigit : c.isDigit = true := hclaims
      simp [isLone, hdigit] at hc
    · rcases (startsWith_cons rest).mp hclaims with rfl
      exact readNumberOrDelim_alone_iff '.' rest
    · rcases (startsWith_cons rest).mp hclaims with rfl
      exact readMarked_alone_iff (k := hash) (Kind.ne_of_same (by decide)) _
    · have hstart : isNameStart c = true := hclaims
      simp [isLone, hstart] at hc
    · rcases (startsQuote_cons rest).mp hclaims with rfl | rfl <;> exact absurd hc (by decide)
    · rcases startsComment_iff.mp hclaims with ⟨cs, heq⟩
      rcases List.cons.inj heq with ⟨rfl, rfl⟩
      exact comment_alone_iff o cs
    · rcases (startsWith_cons rest).mp hclaims with rfl
      exact readLess_alone_iff rest
    · rcases (startsWith_cons rest).mp hclaims with rfl
      exact readMarked_alone_iff (k := atKeyword) (Kind.ne_of_same (by decide)) _
    · rcases (startsWith_cons rest).mp hclaims with rfl
      exact absurd hc (by decide)
  · exact iff_of_true (pass_of_unclaimed o hnone) (not_goesOnLone_of_unclaimed hnone)

theorem readsBack_lone_iff {c : Char} (hc : isLone c = true) (l : Location) (rest : List Char) :
    dialect.ReadsBack ⟨delim, .char c, l, none⟩ rest ↔ goesOnLone c rest = false := by
  have hsource : (Token.source ⟨delim, .char c, l, none⟩).toList = [c] := by
    show (delim.encode (String.singleton c)).toList = [c]
    simp [Kind.encode, delim]
  constructor
  · rintro ⟨d, ds, hsource', hpass⟩
    rcases List.cons.inj (hsource.symm.trans hsource') with ⟨rfl, rfl⟩
    exact (pass_lone_iff {} hc rest).mp (hpass {})
  · intro h
    exact ⟨c, [], hsource, fun o => (pass_lone_iff o hc rest).mpr h⟩

end Css
end StyleTokens
