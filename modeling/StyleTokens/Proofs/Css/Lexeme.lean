import Mathlib.Data.List.Nodup
import StyleTokens.Proofs.Css.Pass
import StyleTokens.Structure.Component

/-!
# What a style sheet is cut into

Preparing a text leaves no carriage return, form feed or zero character in it.
From such a text every pass emits a token of a known kind, with a value that this
kind can hold: names are never empty, and no decoded name, string or address
holds a zero character.
-/

namespace StyleTokens
namespace Css

/-!
## Prepared texts
-/

def isReplaced (c : Char) : Bool :=
  c == '\r' || c == '\x0C' || c == '\x00'

/-- Nothing in the text has to be replaced. -/
def Prepared (cs : List Char) : Prop :=
  forall c, c ∈ cs -> isReplaced c = false

theorem Prepared.tail {c : Char} {cs : List Char} (h : Prepared (c :: cs)) : Prepared cs :=
  fun d hd => h d (List.mem_cons_of_mem c hd)

theorem Prepared.of_suffix {a b : List Char} (h : Prepared b) (hab : a <:+ b) : Prepared a :=
  fun c hc => h c (hab.mem hc)

theorem Prepared.append {a b : List Char} (ha : Prepared a) (hb : Prepared b) :
    Prepared (a ++ b) := by
  intro c hc
  rcases List.mem_append.mp hc with h | h
  · exact ha c h
  · exact hb c h

theorem Prepared.zero_not_mem {cs : List Char} (h : Prepared cs) : '\x00' ∉ cs :=
  fun h0 => absurd (h '\x00' h0) (by decide)

theorem prepared_prepare (cs : List Char) : Prepared (prepare cs) := by
  fun_induction prepare cs with
  | case1 =>
      intro c hc
      cases hc
  | case2 cs ih =>
      intro c hc
      rcases List.mem_cons.mp hc with rfl | hc
      · decide
      · exact ih c hc
  | case3 c cs _ ih =>
      intro d hd
      rcases List.mem_cons.mp hd with rfl | hd
      · split
        · decide
        · split
          · decide
          · rename_i hend hzero
            simp [isReplaced, not_or.mp hend, hzero]
      · exact ih d hd

theorem prepare_of_prepared {cs : List Char} (h : Prepared cs) : prepare cs = cs := by
  induction cs with
  | nil => rfl
  | cons c cs ih =>
      have hc := h c List.mem_cons_self
      simp only [isReplaced, Bool.or_eq_false_iff, beq_eq_false_iff_ne] at hc
      rcases hc with ⟨⟨hcr, hff⟩, hzero⟩
      rw [prepare.eq_3 _ _ (fun cs hcons _ => hcr hcons), if_neg (by simp [hcr, hff]),
        if_neg hzero, ih h.tail]

/-!
## Decoded values
-/

theorem numbered_ne_zero (n : Nat) : numbered n ≠ '\x00' := by
  unfold numbered
  split
  · rename_i hn
    have hvalue : (Char.ofNat n).toNat = n := by
      rw [Char.ofNat, dif_pos hn.2]
      rfl
    intro h
    rw [h] at hvalue
    exact hn.1 hvalue.symm
  · decide

theorem readEscape_ne_zero {cs : List Char} (h : '\x00' ∉ cs) : (readEscape cs).1 ≠ '\x00' := by
  cases cs with
  | nil => decide
  | cons c cs =>
      rw [readEscape]
      split
      · exact numbered_ne_zero _
      · rintro rfl
        exact h List.mem_cons_self

theorem readName_zero_not_mem {cs : List Char} (h : '\x00' ∉ cs) :
    '\x00' ∉ (readName cs).1 := by
  fun_induction readName cs with
  | case1 => exact List.not_mem_nil
  | case2 c cs _ _ ih =>
      rw [List.mem_cons, not_or] at h ⊢
      exact ⟨h.1, ih h.2⟩
  | case3 c cs _ _ _ _ ih =>
      rw [List.mem_cons, not_or] at h ⊢
      exact ⟨(readEscape_ne_zero h.2).symm, ih fun h0 => h.2 ((readEscape_suffix cs).mem h0)⟩
  | case4 => exact List.not_mem_nil

theorem readName_ne_nil {c : Char} {cs : List Char}
    (h : isNameChar c = true ∨ startsEscape (c :: cs) = true) :
    (readName (c :: cs)).1 ≠ [] := by
  rw [readName_cons]
  split
  · simp
  · rename_i hchar
    rw [if_pos (h.resolve_left hchar)]
    simp

theorem readString_zero_not_mem {quote : Char} {cs : List Char} (h : '\x00' ∉ cs) :
    '\x00' ∉ (readString quote cs).value := by
  fun_induction readString quote cs with
  | case1 => exact List.not_mem_nil
  | case2 => exact List.not_mem_nil
  | case3 => exact List.not_mem_nil
  | case4 => exact List.not_mem_nil
  | case5 ds _ _ ih =>
      exact ih fun h0 => h (List.mem_cons_of_mem _ (List.mem_cons_of_mem _ h0))
  | case6 d ds _ _ _ ih =>
      rw [List.mem_cons, not_or] at h
      rw [Enclosed.push, List.mem_cons, not_or]
      exact ⟨(readEscape_ne_zero h.2).symm,
        ih fun h0 => h.2 ((readEscape_suffix (d :: ds)).mem h0)⟩
  | case7 c cs _ _ _ ih =>
      rw [List.mem_cons, not_or] at h
      rw [Enclosed.push, List.mem_cons, not_or]
      exact ⟨h.1, ih h.2⟩

theorem readAddress_zero_not_mem {cs : List Char} (h : '\x00' ∉ cs) :
    '\x00' ∉ (readAddress cs).value := by
  fun_induction readAddress cs with
  | case1 => exact List.not_mem_nil
  | case2 => exact List.not_mem_nil
  | case3 => exact List.not_mem_nil
  | case4 => exact List.not_mem_nil
  | case5 => exact List.not_mem_nil
  | case6 => exact List.not_mem_nil
  | case7 cs _ _ _ _ ih =>
      rw [List.mem_cons, not_or] at h
      rw [Enclosed.push, List.mem_cons, not_or]
      exact ⟨(readEscape_ne_zero h.2).symm, ih fun h0 => h.2 ((readEscape_suffix cs).mem h0)⟩
  | case8 => exact List.not_mem_nil
  | case9 c cs _ _ _ _ ih =>
      rw [List.mem_cons, not_or] at h
      rw [Enclosed.push, List.mem_cons, not_or]
      exact ⟨h.1, ih h.2⟩

/-!
## Lexemes
-/

def bareKinds : List Kind :=
  [whitespace, semicolon, colon, comma, openParen, closeParen, openBracket, closeBracket,
    openBrace, closeBrace, cdo, cdc, .eof]

def nameKinds : List Kind := [ident, function, hash, atKeyword]

def numericKinds : List Kind := [number, percentage, dimension]

def contentKinds : List Kind :=
  bareKinds ++ nameKinds ++ numericKinds ++ [string, url, delim, badString, badUrl, badNumber]

/-- May the character be a token of its own, wherever it stands? -/
def isLone (c : Char) : Bool :=
  !(isReplaced c || isBlank c || (punctuation? c).isSome || c.isDigit || isNameStart c ||
    c == '"' || c == '\'' || c == '\\')

/-- A numeric token without an error. -/
inductive Numeric : Token -> Prop where
  | number {n : Number} {l : Location} : Numeric ⟨number, .number n, l, none⟩
  | percentage {n : Number} {l : Location} : Numeric ⟨percentage, .dimension n "%", l, none⟩
  | dimension {n : Number} {cs : List Char} {l : Location} (h : '\x00' ∉ cs) :
      Numeric ⟨dimension, .dimension n (String.ofList cs), l, none⟩

/-- A token as it is cut from a prepared text, other than a comment. -/
inductive Lexeme : Token -> Prop where
  | bare {k : Kind} {l : Location} (hk : k ∈ bareKinds) : Lexeme ⟨k, .none, l, none⟩
  | name {k : Kind} {cs : List Char} {l : Location} (hk : k ∈ nameKinds) (hcs : cs ≠ [])
      (h : '\x00' ∉ cs) : Lexeme ⟨k, .text (String.ofList cs), l, none⟩
  | enclosed {k : Kind} {cs : List Char} {l : Location} (hk : k = string ∨ k = url)
      (h : '\x00' ∉ cs) : Lexeme ⟨k, .text (String.ofList cs), l, none⟩
  | lone {c : Char} {l : Location} (h : isLone c = true) : Lexeme ⟨delim, .char c, l, none⟩
  | numeric {t : Token} (h : Numeric t) : Lexeme t
  | broken {k : Kind} {cs : List Char} {l : Location} {e : String}
      (hk : k = badString ∨ k = badUrl) : Lexeme ⟨k, .text (String.ofList cs), l, some e⟩
  | stray {l : Location} {e : String} : Lexeme ⟨delim, .char '\\', l, some e⟩
  | badNumber {t : Token} {l : Location} {e : String} (h : Numeric t) :
      Lexeme ⟨badNumber, .inner t, l, some e⟩

theorem Numeric.placed {t : Token} (h : Numeric t) (l : Location) : Numeric (t.placed l) := by
  cases h with
  | number => exact .number
  | percentage => exact .percentage
  | dimension h => exact .dimension h

theorem Lexeme.placed {t : Token} (h : Lexeme t) (l : Location) : Lexeme (t.placed l) := by
  cases h with
  | bare hk => exact .bare hk
  | name hk hcs h => exact .name hk hcs h
  | enclosed hk h => exact .enclosed hk h
  | lone h => exact .lone h
  | numeric h => exact .numeric (h.placed l)
  | broken hk => exact .broken hk
  | stray => exact .stray
  | badNumber h => exact .badNumber (h.placed l)

/-- A comment as it is cut from a text. -/
inductive Remark : Token -> Prop where
  | mk {cs : List Char} {l : Location} : Remark ⟨comment, .text (String.ofList cs), l, none⟩

theorem Remark.placed {t : Token} (h : Remark t) (l : Location) : Remark (t.placed l) := by
  cases h
  exact .mk

theorem Numeric.kind_mem {t : Token} (h : Numeric t) : t.kind ∈ numericKinds := by
  cases h <;> simp [numericKinds]

theorem Lexeme.kind_mem {t : Token} (h : Lexeme t) : t.kind ∈ contentKinds := by
  simp only [contentKinds, List.mem_append]
  cases h with
  | bare hk => exact Or.inl (Or.inl (Or.inl hk))
  | name hk => exact Or.inl (Or.inl (Or.inr hk))
  | enclosed hk => exact Or.inr (by rcases hk with rfl | rfl <;> simp)
  | numeric h => exact Or.inl (Or.inr h.kind_mem)
  | broken hk => exact Or.inr (by rcases hk with rfl | rfl <;> simp)
  | _ => exact Or.inr (by simp)

theorem Lexeme.not_is_comment {t : Token} (h : Lexeme t) : t.is comment = false := by
  have hkinds : forall k, k ∈ contentKinds -> k.same comment = false := by decide
  exact hkinds t.kind h.kind_mem

/-!
## Emission
-/

theorem numeric_withUnit (n : Number) {cs : List Char} (h : '\x00' ∉ cs) :
    Numeric (withUnit n cs).1 := by
  unfold withUnit
  split
  · exact .dimension (readName_zero_not_mem h)
  · cases cs with
    | nil => exact .number
    | cons c cs =>
        dsimp only
        split
        · exact .percentage
        · exact .number

theorem lexeme_readNumeric {cs : List Char} (h : '\x00' ∉ cs) : Lexeme (readNumeric cs).1 := by
  have hrest : '\x00' ∉ (readNumeral cs).rest := fun h0 => h ((readNumeral_suffix cs).mem h0)
  simp only [readNumeric]
  split
  · exact .badNumber (numeric_withUnit _ hrest)
  · exact .numeric (numeric_withUnit _ hrest)

theorem lexeme_addressToken {cs : List Char} (h : '\x00' ∉ cs) : Lexeme (addressToken cs).1 := by
  have hvalue : '\x00' ∉ (readAddress (cs.dropWhile isBlank)).value :=
    readAddress_zero_not_mem fun h0 => h ((List.dropWhile_suffix _).mem h0)
  simp only [addressToken]
  split
  · exact .enclosed (Or.inr rfl) hvalue
  · exact .broken (Or.inr rfl)

theorem lexeme_readNameLike {c : Char} {cs : List Char} (hname : startsName (c :: cs) = true)
    (h : '\x00' ∉ c :: cs) : Lexeme (readNameLike (c :: cs)).1 := by
  have hne : (readName (c :: cs)).1 ≠ [] := readName_ne_nil (startsName_cases hname)
  have hzero : '\x00' ∉ (readName (c :: cs)).1 := readName_zero_not_mem h
  simp only [readNameLike]
  split
  · rename_i rest hrest
    have hmem : '\x00' ∉ rest := fun h0 =>
      h ((readName_suffix (c :: cs)).mem (hrest ▸ List.mem_cons_of_mem _ h0))
    split
    · exact lexeme_addressToken hmem
    · exact .name (by simp [nameKinds]) hne hzero
  · exact .name (by simp [nameKinds]) hne hzero

theorem lexeme_readQuoted {quote : Char} {cs : List Char} (h : '\x00' ∉ cs) :
    Lexeme (readQuoted (quote :: cs)).1 := by
  simp only [readQuoted]
  split
  · exact .enclosed (Or.inl rfl) (readString_zero_not_mem h)
  · exact .broken (Or.inl rfl)

theorem lexeme_readNumberOrDelim {c : Char} {cs : List Char} (hc : isLone c = true)
    (h : '\x00' ∉ c :: cs) : Lexeme (readNumberOrDelim (c :: cs)).1 := by
  rw [readNumberOrDelim]
  split
  · exact lexeme_readNumeric h
  · exact .lone hc

theorem lexeme_readHyphen {cs : List Char} (h : '\x00' ∉ '-' :: cs) :
    Lexeme (readHyphen ('-' :: cs)).1 := by
  rw [readHyphen]
  split
  · exact lexeme_readNumeric h
  · split
    · exact .bare (by simp [bareKinds])
    · split
      · rename_i hname
        exact lexeme_readNameLike hname h
      · exact .lone (by decide)

theorem lexeme_readHash {cs : List Char} (h : '\x00' ∉ cs) :
    Lexeme (readHash ('#' :: cs)).1 := by
  simp only [readHash, List.drop_succ_cons, List.drop_zero]
  split
  · rename_i hstart
    cases cs with
    | nil => cases hstart
    | cons d ds =>
        have hname : isNameChar d = true ∨ startsEscape (d :: ds) = true :=
          Bool.or_eq_true_iff.mp hstart
        exact .name (by simp [nameKinds]) (readName_ne_nil hname) (readName_zero_not_mem h)
  · exact .lone (by decide)

theorem lexeme_readAt {cs : List Char} (h : '\x00' ∉ cs) : Lexeme (readAt ('@' :: cs)).1 := by
  simp only [readAt, List.drop_succ_cons, List.drop_zero]
  split
  · rename_i hstart
    cases cs with
    | nil => cases hstart
    | cons d ds =>
        exact .name (by simp [nameKinds]) (readName_ne_nil (startsName_cases hstart))
          (readName_zero_not_mem h)
  · exact .lone (by decide)

theorem lexeme_readBackslash {cs : List Char} (h : '\x00' ∉ '\\' :: cs) :
    Lexeme (readBackslash ('\\' :: cs)).1 := by
  rw [readBackslash]
  split
  · rename_i hname
    exact lexeme_readNameLike hname h
  · exact .stray

theorem lexeme_readLess (cs : List Char) : Lexeme (readLess ('<' :: cs)).1 := by
  rw [readLess]
  split
  · exact .bare (by simp [bareKinds])
  · exact .lone (by decide)

theorem lexeme_readPunctuation {c : Char} (cs : List Char)
    (h : (punctuation? c).isSome = true) : Lexeme (readPunctuation (c :: cs)).1 := by
  rcases punctuation?_cases h with rfl | rfl | rfl | rfl | rfl | rfl | rfl | rfl | rfl
  all_goals exact .bare (by simp [punctuation?, bareKinds])

theorem lexeme_of_mem_scan {s : Scanner} (hs : s ∈ scanners) (o : Options) {c : Char}
    {cs : List Char} (hc : s.claims (c :: cs) = true) (h : Prepared (c :: cs)) {t : Token}
    (ht : t ∈ (s.scan o (c :: cs)).tokens) :
    Lexeme t ∨ (o.keepComments = true ∧ Remark t) := by
  have hzero := h.zero_not_mem
  have htail : '\x00' ∉ cs := h.tail.zero_not_mem
  simp only [scanners, List.mem_cons, List.not_mem_nil, or_false] at hs
  rcases hs with rfl | rfl | rfl | rfl | rfl | rfl | rfl | rfl | rfl | rfl | rfl | rfl | rfl
  · rcases List.mem_singleton.mp ht with rfl
    exact Or.inl (.bare (by simp [bareKinds]))
  · rcases List.mem_singleton.mp ht with rfl
    exact Or.inl (lexeme_readPunctuation cs hc)
  · rcases List.mem_singleton.mp ht with rfl
    rcases (startsWith_cons cs).mp hc with rfl
    exact Or.inl (lexeme_readNumberOrDelim (by decide) hzero)
  · rcases List.mem_singleton.mp ht with rfl
    rcases (startsWith_cons cs).mp hc with rfl
    exact Or.inl (lexeme_readHyphen hzero)
  · rcases List.mem_singleton.mp ht with rfl
    exact Or.inl (lexeme_readNumeric hzero)
  · rcases List.mem_singleton.mp ht with rfl
    rcases (startsWith_cons cs).mp hc with rfl
    exact Or.inl (lexeme_readNumberOrDelim (by decide) hzero)
  · rcases List.mem_singleton.mp ht with rfl
    rcases (startsWith_cons cs).mp hc with rfl
    exact Or.inl (lexeme_readHash htail)
  · rcases List.mem_singleton.mp ht with rfl
    exact Or.inl (lexeme_readNameLike (startsName_of_isNameStart cs hc) hzero)
  · rcases List.mem_singleton.mp ht with rfl
    exact Or.inl (lexeme_readQuoted htail)
  · replace ht : t ∈ if o.keepComments then
        [Token.ofText comment (Text.readComment ((c :: cs).drop 2)).1] else [] := ht
    split at ht
    · rename_i hkeep
      rcases List.mem_singleton.mp ht with rfl
      exact Or.inr ⟨hkeep, .mk⟩
    · cases ht
  · rcases List.mem_singleton.mp ht with rfl
    rcases (startsWith_cons cs).mp hc with rfl
    exact Or.inl (lexeme_readLess cs)
  · rcases List.mem_singleton.mp ht with rfl
    rcases (startsWith_cons cs).mp hc with rfl
    exact Or.inl (lexeme_readAt htail)
  · rcases List.mem_singleton.mp ht with rfl
    rcases (startsWith_cons cs).mp hc with rfl
    exact Or.inl (lexeme_readBackslash hzero)

theorem isLone_of_unclaimed {c : Char} {cs : List Char} (hc : isReplaced c = false)
    (h : forall s, s ∈ scanners -> s.claims (c :: cs) = false) : isLone c = true := by
  have hblank : isBlank c = false := h blankScanner (by simp [scanners])
  have hpunctuation : (punctuation? c).isSome = false := h punctuationScanner (by simp [scanners])
  have hdigit : c.isDigit = false := h digitScanner (by simp [scanners])
  have hname : isNameStart c = false := h nameScanner (by simp [scanners])
  have hquote : (c == '"' || c == '\'') = false := h stringScanner (by simp [scanners])
  have hbackslash : (c == '\\') = false := h backslashScanner (by simp [scanners])
  rw [Bool.or_eq_false_iff] at hquote
  simp only [isLone, hc, hblank, hpunctuation, hdigit, hname, hquote.1, hquote.2, hbackslash]
  decide

/-!
## Passes
-/

theorem lexeme_of_mem_pass (o : Options) {c : Char} {cs : List Char} (h : Prepared (c :: cs))
    {t : Token} (ht : t ∈ (dialect.pass o c cs).tokens) :
    Lexeme t ∨ (o.keepComments = true ∧ Remark t) := by
  rcases claimed_or_unclaimed c cs with ⟨s, hs, hc⟩ | hnone
  · rw [pass_tokens_of_claims hs o hc] at ht
    exact lexeme_of_mem_scan hs o hc h ht
  · rw [pass_tokens_of_unclaimed o hnone] at ht
    rcases List.mem_singleton.mp ht with rfl
    exact Or.inl (.lone (isLone_of_unclaimed (h c List.mem_cons_self) hnone))

theorem lexeme_of_mem_tokensFrom (o : Options) (l : Location) {cs : List Char}
    (h : Prepared cs) {t : Token} (ht : t ∈ dialect.tokensFrom o l cs) :
    Lexeme t ∨ (o.keepComments = true ∧ Remark t) := by
  induction l, cs using Dialect.tokensFrom.induct dialect o with
  | case1 l =>
      rw [Dialect.tokensFrom_nil] at ht
      rcases List.mem_singleton.mp ht with rfl
      exact Or.inl (.bare (by simp [bareKinds]))
  | case2 l c cs found ih =>
      rw [Dialect.tokensFrom_cons, List.mem_append] at ht
      rcases ht with ht | ht
      · rcases List.mem_map.mp ht with ⟨u, hu, rfl⟩
        rcases lexeme_of_mem_pass o h hu with hlexeme | ⟨hkeep, hremark⟩
        · exact Or.inl (hlexeme.placed l)
        · exact Or.inr ⟨hkeep, hremark.placed l⟩
      · exact ih (h.tail.of_suffix (dialect.pass o c cs).rest_suffix) ht

theorem lexeme_of_mem_tokenize {o : Options} {s : String} {t : Token}
    (ht : t ∈ tokenize o s) : Lexeme t ∨ (o.keepComments = true ∧ Remark t) :=
  lexeme_of_mem_tokensFrom o .start (prepared_prepare s.toList) ht

/-- Is the token cut from some style sheet? -/
def Emitted (t : Token) : Prop :=
  exists o s, t ∈ tokenize o s

theorem Emitted.cases {t : Token} (h : Emitted t) : Lexeme t ∨ Remark t := by
  rcases h with ⟨o, s, ht⟩
  exact (lexeme_of_mem_tokenize ht).imp_right And.right

theorem Numeric.asBlock?_eq_none {t : Token} (h : Numeric t) : t.asBlock? = none := by
  cases h <;> rfl

theorem Emitted.asBlock?_eq_none {t : Token} (h : Emitted t) : t.asBlock? = none := by
  rcases h.cases with hlexeme | hremark
  · cases hlexeme with
    | numeric h => exact h.asBlock?_eq_none
    | _ => rfl
  · cases hremark
    rfl

theorem Numeric.asCall?_eq_none {t : Token} (h : Numeric t) : t.asCall? = none := by
  cases h <;> rfl

theorem Emitted.asCall?_eq_none {t : Token} (h : Emitted t) : t.asCall? = none := by
  cases h.cases with
  | inl hlexeme =>
      cases hlexeme with
      | numeric h => exact h.asCall?_eq_none
      | _ => rfl
  | inr hremark =>
      cases hremark
      rfl

theorem Emitted.kind_mem {t : Token} (h : Emitted t) : t.kind ∈ comment :: contentKinds := by
  rcases h.cases with hlexeme | hremark
  · exact List.mem_cons_of_mem _ hlexeme.kind_mem
  · cases hremark
    exact List.mem_cons_self

/-!
## Brackets and functions
-/

def brackets : List Kind :=
  [openBrace, openBracket, openParen, closeBrace, closeBracket, closeParen]

def valueKinds : List Kind :=
  comment :: nameKinds ++ numericKinds ++ [string, url, delim, badString, badUrl, badNumber]

theorem Lexeme.bare_or_valued {t : Token} (h : Lexeme t) :
    (t.kind ∈ bareKinds ∧ t.payload = .none) ∨ t.kind ∈ valueKinds := by
  simp only [valueKinds, List.cons_append, List.mem_cons, List.mem_append]
  cases h with
  | bare hk => exact Or.inl ⟨hk, rfl⟩
  | name hk => exact Or.inr (Or.inr (Or.inl (Or.inl hk)))
  | enclosed hk => exact Or.inr (by rcases hk with rfl | rfl <;> simp)
  | numeric h => exact Or.inr (Or.inr (Or.inl (Or.inr h.kind_mem)))
  | broken hk => exact Or.inr (by rcases hk with rfl | rfl <;> simp)
  | _ => exact Or.inr (by simp)

theorem kind_of_same {k k' : Kind} (hk : k ∈ comment :: contentKinds)
    (hk' : k' ∈ comment :: contentKinds) (h : k.same k' = true) : k = k' :=
  List.inj_on_of_nodup_map (by decide : ((comment :: contentKinds).map Kind.identity).Nodup) hk hk'
    (Kind.identity_eq_iff.mpr h)

theorem Emitted.kind_of_is {t : Token} (h : Emitted t) {k : Kind} (hk : k ∈ comment :: contentKinds)
    (his : t.is k = true) : t.kind = k :=
  kind_of_same h.kind_mem hk his

theorem Emitted.of_bare {t : Token} (h : Emitted t) {k : Kind} (hk : k ∈ bareKinds)
    (his : t.is k = true) : t.kind = k ∧ t.payload = .none := by
  have hcontent : k ∈ comment :: contentKinds := by
    simp only [contentKinds, List.mem_cons, List.mem_append, hk, true_or, or_true]
  have hvalued : forall k', k' ∈ valueKinds -> forall k, k ∈ bareKinds -> k'.same k = false := by
    decide
  cases h.cases with
  | inl hlexeme =>
      cases hlexeme.bare_or_valued with
      | inl hnone => exact ⟨h.kind_of_is hcontent his, hnone.2⟩
      | inr hvalue =>
          rw [Token.is, hvalued t.kind hvalue k hk] at his
          cases his
  | inr hremark =>
      cases hremark
      rw [Token.is, hvalued comment List.mem_cons_self k hk] at his
      cases his

theorem Emitted.of_bracket {t : Token} (h : Emitted t) {k : Kind} (hk : k ∈ brackets)
    (his : t.is k = true) : t.kind = k ∧ t.payload = .none := by
  have hbare : forall k, k ∈ brackets -> k ∈ bareKinds := by simp [brackets, bareKinds]
  exact h.of_bare (hbare k hk) his

theorem Emitted.of_function {t : Token} (h : Emitted t) (his : t.is function = true) :
    t.kind = function ∧ t.payload = .text t.text := by
  have hkind : t.kind = function := h.kind_of_is (by simp [contentKinds, nameKinds]) his
  constructor
  · exact hkind
  · cases h.cases with
    | inl hlexeme =>
        cases hlexeme with
        | bare hk =>
            cases hkind
            exact absurd hk (Kind.not_mem_of_same (k := function) (by decide))
        | numeric hnumeric =>
            have hmem := hnumeric.kind_mem
            rw [hkind] at hmem
            exact absurd hmem (Kind.not_mem_of_same (by decide))
        | lone => exact absurd (show delim = function from hkind) (Kind.ne_of_same (by decide))
        | stray => exact absurd (show delim = function from hkind) (Kind.ne_of_same (by decide))
        | badNumber =>
            exact absurd (show Css.badNumber = function from hkind) (Kind.ne_of_same (by decide))
        | _ => rfl
    | inr hremark =>
        cases hremark
        rfl

def decodedKinds : List Kind := nameKinds ++ [string, url]

theorem Emitted.of_decoded {t : Token} (h : Emitted t) (hk : t.kind ∈ decodedKinds) :
    exists cs l, t = ⟨t.kind, .text (String.ofList cs), l, none⟩ ∧ '\x00' ∉ cs ∧
      (t.kind ∈ nameKinds -> cs ≠ []) := by
  have hbare : forall k, k ∈ bareKinds ++ numericKinds -> k ∉ decodedKinds := by
    have hapart : forall k, k ∈ bareKinds ++ numericKinds -> decodedKinds.any k.same = false := by
      decide
    exact fun k hk => Kind.not_mem_of_same (hapart k hk)
  cases h.cases with
  | inl hlexeme =>
      cases hlexeme with
      | bare hbarekind => exact absurd hk (hbare _ (List.mem_append_left _ hbarekind))
      | @name k cs l _ hcs hzero => exact ⟨cs, l, rfl, hzero, fun _ => hcs⟩
      | @enclosed k cs l henclosed hzero =>
          have hnot : forall k, k = string ∨ k = url -> k ∉ nameKinds := by
            rintro k (rfl | rfl) <;> exact Kind.not_mem_of_same (by decide)
          exact ⟨cs, l, rfl, hzero, fun hname => absurd hname (hnot k henclosed)⟩
      | lone => exact absurd hk (Kind.not_mem_of_same (k := delim) (by decide))
      | numeric hnumeric => exact absurd hk (hbare _ (List.mem_append_right _ hnumeric.kind_mem))
      | broken hbroken =>
          have hnot : forall k, k = badString ∨ k = badUrl -> k ∉ decodedKinds := by
            rintro k (rfl | rfl) <;> exact Kind.not_mem_of_same (by decide)
          exact absurd hk (hnot _ hbroken)
      | stray => exact absurd hk (Kind.not_mem_of_same (k := delim) (by decide))
      | badNumber => exact absurd hk (Kind.not_mem_of_same (k := Css.badNumber) (by decide))
  | inr hremark =>
      cases hremark
      exact absurd hk (Kind.not_mem_of_same (k := comment) (by decide))

theorem Emitted.opens?_eq_none {t : Token} (h : Emitted t)
    (hquiet : (t.isBlank || t.isTerminator) = true) : t.opens? = none := by
  have hkinds : forall k, k ∈ comment :: contentKinds -> (k.blank || k.terminator) = true ->
      closingOf? k = none ∧ k.same function = false := by
    decide
  rcases hkinds t.kind h.kind_mem hquiet with ⟨hclosing, hfunction⟩
  simp only [Token.opens?, hclosing, Token.is, hfunction]
  rfl

end Css
end StyleTokens
