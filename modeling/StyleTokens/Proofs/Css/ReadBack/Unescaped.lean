import StyleTokens.Proofs.Css.ReadBack.Run

/-!
# Names that are written as they are

Declarations, calls and at-rules write their names without an escape, in front of a mark
that can be in a name only behind a backslash.  A text that starts like this starts with
a token of that name only if the name needs no escape: whatever reading it takes for an
escape makes the value shorter than the text, so that the mark would have to stand in the
value, in front of where it stands in the text for the first time.
-/

namespace StyleTokens
namespace Css

open Encoding

/-!
## Marks behind names
-/

def nameMarks : List Char := [':', '(', ';']

/-- What no mark is: a part of a name or of an escape, or what preparing replaces. -/
structure EndsName (m : Char) : Prop where
  not_name : isNameChar m = false
  not_hex : Text.isHexDigit m = false
  not_blank : isBlank m = false
  not_replaced : isReplaced m = false
  ne_backslash : m ≠ '\\'

theorem endsName_of_mem {m : Char} (hm : m ∈ nameMarks) : EndsName m := by
  simp only [nameMarks, List.mem_cons, List.not_mem_nil, or_false] at hm
  rcases hm with rfl | rfl | rfl
  all_goals exact ⟨by decide, by decide, by decide, by decide, by decide⟩

theorem EndsName.ne_newline {m : Char} (h : EndsName m) : m ≠ '\n' := by
  rintro rfl
  exact absurd h.not_blank (by decide)

/-!
## Preparing up to a mark
-/

theorem length_prepare_le (cs : List Char) : (prepare cs).length ≤ cs.length := by
  fun_induction prepare cs with
  | case1 => exact Nat.le_refl 0
  | case2 cs ih =>
      simp only [List.length_cons]
      omega
  | case3 c cs _ ih =>
      simp only [List.length_cons]
      omega

theorem spanUpTo_mark {p : Char -> Bool} {m : Char} (hm : p m = false) (n : Nat)
    (a b : List Char) :
    exists front back, a = front ++ back ∧
      Text.spanUpTo p n (a ++ m :: b) = (front, back ++ m :: b) := by
  induction n generalizing a with
  | zero => exact ⟨[], a, rfl, rfl⟩
  | succ n ih =>
      cases a with
      | nil => exact ⟨[], [], rfl, by simp [Text.spanUpTo, hm]⟩
      | cons c a =>
          rw [List.cons_append, Text.spanUpTo]
          split
          · rcases ih a with ⟨front, back, hsplit, hspan⟩
            refine ⟨c :: front, back, ?_, ?_⟩
            · rw [hsplit, List.cons_append]
            · rw [hspan]
          · exact ⟨[], c :: a, rfl, rfl⟩

section Mark

variable {m : Char} (h : EndsName m)

include h

theorem prepare_mark_cons (cs : List Char) : prepare (m :: cs) = m :: prepare cs :=
  prepare_append_of_prepared (prepared_cons h.not_replaced prepared_nil) cs

theorem prepare_append_mark (u w : List Char) :
    prepare (u ++ m :: w) = prepare u ++ m :: prepare w := by
  fun_induction prepare u with
  | case1 => exact prepare_mark_cons h w
  | case2 cs ih => rw [List.cons_append, List.cons_append, prepare, ih, List.cons_append]
  | case3 c cs hline ih =>
      have hline' : forall ds, c = '\r' -> cs ++ m :: w = '\n' :: ds -> False := by
        intro ds hc hcs
        cases cs with
        | nil => exact h.ne_newline (List.cons.inj hcs).1
        | cons d cs =>
            rcases List.cons.inj hcs with ⟨rfl, -⟩
            exact hline cs hc rfl
      rw [List.cons_append, prepare.eq_3 _ _ hline', ih, List.cons_append]

/-!
## Reading up to a mark
-/

theorem dropBlank_mark (a b : List Char) :
    exists a', a' <:+ a ∧ dropBlank (a ++ m :: b) = a' ++ m :: b := by
  cases a with
  | nil => exact ⟨[], List.suffix_refl [], by simp [dropBlank, h.not_blank]⟩
  | cons c a =>
      rw [List.cons_append, dropBlank]
      split
      · exact ⟨a, List.suffix_cons c a, rfl⟩
      · exact ⟨c :: a, List.suffix_refl _, rfl⟩

theorem readEscape_mark (c : Char) (a b : List Char) :
    exists d a', a' <:+ a ∧ readEscape (c :: a ++ m :: b) = (d, a' ++ m :: b) := by
  rw [List.cons_append, readEscape]
  split
  · rcases spanUpTo_mark h.not_hex 5 a b with ⟨front, back, rfl, hspan⟩
    rcases dropBlank_mark h back b with ⟨a', ha', hdrop⟩
    refine ⟨numbered (Text.hexNumber (c :: front)), a',
      ha'.trans (List.suffix_append front back), ?_⟩
    simp only [hspan, hdrop]
  · exact ⟨c, a, List.suffix_refl a, rfl⟩

/-- Reading a name in front of a mark gives fewer characters than there are, or all of
them as they are, or it goes on through the mark, which is then in the value. -/
theorem readName_mark (a b : List Char) :
    (readName (a ++ m :: b)).1.length < a.length ∨
      (readName (a ++ m :: b) = (a, m :: b) ∧ forall c, c ∈ a -> isNameChar c = true) ∨
      exists v v', (readName (a ++ m :: b)).1 = v ++ m :: v' ∧ v.length < a.length := by
  induction hlen : a.length using Nat.strongRecOn generalizing a with
  | ind n ih =>
      subst hlen
      cases a with
      | nil =>
          refine Or.inr (Or.inl ⟨readName_of_end b h.not_name h.ne_backslash, ?_⟩)
          intro c hc
          cases hc
      | cons c a =>
          rw [List.cons_append, readName_cons]
          by_cases hname : isNameChar c = true
          · rw [if_pos hname]
            rcases ih a.length (Nat.lt_succ_self _) a rfl with
              hless | ⟨hread, hall⟩ | ⟨v, v', hvalue, hless⟩
            · exact Or.inl (Nat.succ_lt_succ hless)
            · refine Or.inr (Or.inl ⟨?_, ?_⟩)
              · rw [hread]
              · exact List.forall_mem_cons.mpr ⟨hname, hall⟩
            · refine Or.inr (Or.inr ⟨c :: v, v', ?_, Nat.succ_lt_succ hless⟩)
              rw [hvalue, List.cons_append]
          · rw [if_neg hname]
            split
            · cases a with
              | nil =>
                  -- The backslash is the last character in front of the mark.
                  refine Or.inr (Or.inr ⟨[], (readName b).1, ?_, Nat.zero_lt_one⟩)
                  rw [List.nil_append, List.nil_append, readEscape_plain h.not_hex]
              | cons d a =>
                  rcases readEscape_mark h d a b with ⟨e, a', ha', hread⟩
                  have hshort := ha'.length_le
                  simp only [hread, List.length_cons]
                  rcases ih a'.length (by simp only [List.length_cons]; omega) a' rfl with
                    hless | ⟨hread', _⟩ | ⟨v, v', hvalue, hless⟩
                  · exact Or.inl (by omega)
                  · refine Or.inl ?_
                    rw [hread']
                    show a'.length + 1 < a.length + 1 + 1
                    omega
                  · refine Or.inr (Or.inr ⟨e :: v, v', ?_, ?_⟩)
                    · rw [hvalue, List.cons_append]
                    · rw [List.length_cons]
                      omega
            · exact Or.inl (Nat.succ_pos _)

theorem all_isNameChar_of_readName {cs rest : List Char}
    (hread : (readName (prepare (cs ++ m :: rest))).1 = cs) :
    forall c, c ∈ cs -> isNameChar c = true := by
  -- The text up to where the mark stands in it for the first time.
  have hfirst : exists u tail w, cs = u ++ tail ∧ cs ++ m :: rest = u ++ m :: w ∧ m ∉ u := by
    by_cases hm : m ∈ cs
    · rcases List.eq_append_cons_of_mem hm with ⟨u, w, hsplit, hu⟩
      exact ⟨u, m :: w, w ++ m :: rest, hsplit, by rw [hsplit]; simp, hu⟩
    · exact ⟨cs, [], rest, (List.append_nil cs).symm, rfl, hm⟩
  rcases hfirst with ⟨u, tail, w, hcs, htext, hu⟩
  have hlen : u.length ≤ cs.length := by
    rw [hcs, List.length_append]
    omega
  have hprepared := length_prepare_le u
  rw [htext, prepare_append_mark h] at hread
  rcases readName_mark h (prepare u) (prepare w) with hless | ⟨hall, hname⟩ | ⟨v, v', hv, hless⟩
  · rw [hread] at hless
    omega
  · rw [hall] at hread
    rwa [← hread]
  · rw [hread, hcs] at hv
    -- The mark of the value stands in front of the end of that text.
    rcases List.append_eq_append_iff.mp hv with ⟨l, hl, _⟩ | ⟨l, hl, htail⟩
    · rw [hl, List.length_append] at hless
      omega
    · cases l with
      | nil =>
          rw [List.append_nil] at hl
          subst hl
          omega
      | cons d l =>
          rcases List.cons.inj htail with ⟨rfl, -⟩
          exact absurd (by rw [hl]; simp) hu

end Mark

/-!
## Tokens of names
-/

def leadingKinds : List Kind := [ident, function]

/-- A token of the name that a text starts with; a parenthesis stands behind the name of
a function. -/
structure Names (input : List Char) (t : Token) : Prop where
  starts : startsName input = true
  payload : t.payload = .text (String.ofList (readName input).1)
  opens : t.is function = true -> (readName input).2 ≠ []

theorem Names.placed {input : List Char} {t : Token} (h : Names input t) (l : Location) :
    Names input (t.placed l) := by
  rcases t with ⟨kind, payload, location, error⟩
  have hpayload : payload = .text (String.ofList (readName input).1) := h.payload
  subst hpayload
  exact ⟨h.starts, rfl, h.opens⟩

theorem kind_withUnit_numeric (n : Number) (cs : List Char) :
    (withUnit n cs).1.kind ∈ numericKinds := by
  unfold withUnit
  split
  · exact show dimension ∈ numericKinds by simp [numericKinds]
  · cases cs with
    | nil => exact show number ∈ numericKinds by simp [numericKinds]
    | cons c cs =>
        dsimp only
        split
        · exact show percentage ∈ numericKinds by simp [numericKinds]
        · exact show number ∈ numericKinds by simp [numericKinds]

theorem kind_readNumeric_not_leading (cs : List Char) :
    (readNumeric cs).1.kind ∉ leadingKinds := by
  have hkinds : forall k, k ∈ badNumber :: numericKinds -> leadingKinds.any k.same = false := by
    decide
  refine Kind.not_mem_of_same (hkinds _ ?_)
  simp only [readNumeric]
  split
  · exact List.mem_cons_self
  · exact List.mem_cons_of_mem _ (kind_withUnit_numeric _ _)

theorem names_readNameLike {input : List Char} (hname : startsName input = true)
    (hk : (readNameLike input).1.kind ∈ leadingKinds) :
    Names input (readNameLike input).1 := by
  by_cases hopen : (readName input).2.head? = some '('
  · rcases List.head?_eq_some_iff.mp hopen with ⟨rest, hrest⟩
    have hread : readName input = ((readName input).1, '(' :: rest) := Prod.ext rfl hrest
    rw [readNameLike_of_open hread] at hk ⊢
    split at hk
    · rcases kind_addressToken rest with haddress | haddress
      all_goals
        rw [haddress] at hk
        exact absurd hk (Kind.not_mem_of_same (by decide))
    · rename_i hurl
      rw [if_neg hurl]
      exact ⟨hname, rfl, fun _ => by rw [hrest]; exact List.cons_ne_nil _ _⟩
  · rw [readNameLike_of_ident rfl hopen]
    exact ⟨hname, rfl, fun hfunction => by cases hfunction⟩

theorem kind_readDelim_not_leading (cs : List Char) : (readDelim cs).1.kind ∉ leadingKinds := by
  cases cs <;> exact Kind.not_mem_of_same (k := delim) (by decide)

theorem kind_readNumberOrDelim_not_leading (cs : List Char) :
    (readNumberOrDelim cs).1.kind ∉ leadingKinds := by
  rw [readNumberOrDelim]
  split
  · exact kind_readNumeric_not_leading cs
  · exact kind_readDelim_not_leading cs

theorem kind_readHash_not_leading (cs : List Char) : (readHash cs).1.kind ∉ leadingKinds := by
  simp only [readHash]
  split
  · exact Kind.not_mem_of_same (k := hash) (by decide)
  · exact kind_readDelim_not_leading cs

theorem kind_readQuoted_not_leading (quote : Char) (cs : List Char) :
    (readQuoted (quote :: cs)).1.kind ∉ leadingKinds := by
  simp only [readQuoted]
  split
  · exact Kind.not_mem_of_same (k := string) (by decide)
  · exact Kind.not_mem_of_same (k := badString) (by decide)

theorem kind_readLess_not_leading (cs : List Char) : (readLess cs).1.kind ∉ leadingKinds := by
  rw [readLess]
  split
  · exact Kind.not_mem_of_same (k := Css.cdo) (by decide)
  · exact kind_readDelim_not_leading cs

theorem kind_readAt_not_leading (cs : List Char) : (readAt cs).1.kind ∉ leadingKinds := by
  simp only [readAt]
  split
  · exact Kind.not_mem_of_same (k := atKeyword) (by decide)
  · exact kind_readDelim_not_leading cs

theorem punctuation_not_leading {c : Char} (hc : (punctuation? c).isSome = true) :
    (punctuation? c).getD delim ∉ leadingKinds := by
  rcases punctuation?_cases hc with rfl | rfl | rfl | rfl | rfl | rfl | rfl | rfl | rfl
  all_goals exact Kind.not_mem_of_same (by decide)

theorem names_readHyphen {input : List Char} (hk : (readHyphen input).1.kind ∈ leadingKinds) :
    Names input (readHyphen input).1 := by
  rw [readHyphen] at hk ⊢
  split at hk
  · exact absurd hk (kind_readNumeric_not_leading _)
  · rename_i hnumber
    rw [if_neg hnumber]
    split at hk
    · exact absurd hk (Kind.not_mem_of_same (k := Css.cdc) (by decide))
    · rename_i hcdc
      rw [if_neg hcdc]
      split at hk
      · rename_i hname
        rw [if_pos hname]
        exact names_readNameLike hname hk
      · exact absurd hk (kind_readDelim_not_leading input)

theorem names_readBackslash {input : List Char}
    (hk : (readBackslash input).1.kind ∈ leadingKinds) : Names input (readBackslash input).1 := by
  rw [readBackslash] at hk ⊢
  split at hk
  · rename_i hname
    rw [if_pos hname]
    exact names_readNameLike hname hk
  · exact absurd hk (kind_readDelim_not_leading input)

theorem names_of_mem_scan {s : Scanner} (hs : s ∈ scanners) (o : Options) {c : Char}
    {cs : List Char} (hc : s.claims (c :: cs) = true) {t : Token}
    (ht : t ∈ (s.scan o (c :: cs)).tokens) (hk : t.kind ∈ leadingKinds) :
    Names (c :: cs) t := by
  simp only [scanners, List.mem_cons, List.not_mem_nil, or_false] at hs
  rcases hs with rfl | rfl | rfl | rfl | rfl | rfl | rfl | rfl | rfl | rfl | rfl | rfl | rfl
  case inr.inr.inr.inr.inr.inr.inr.inr.inr.inl =>
    -- The scanner of comments is the only one that can go without a token.
    replace ht : t ∈ if o.keepComments then
        [Token.ofText comment (Text.readComment ((c :: cs).drop 2)).1] else [] := ht
    split at ht
    · rcases List.mem_singleton.mp ht with rfl
      exact absurd hk (Kind.not_mem_of_same (k := comment) (by decide))
    · cases ht
  all_goals rcases List.mem_singleton.mp ht with rfl
  · exact absurd hk (Kind.not_mem_of_same (k := whitespace) (by decide))
  · exact absurd hk (punctuation_not_leading hc)
  · exact absurd hk (kind_readNumberOrDelim_not_leading _)
  · exact names_readHyphen hk
  · exact absurd hk (kind_readNumeric_not_leading _)
  · exact absurd hk (kind_readNumberOrDelim_not_leading _)
  · exact absurd hk (kind_readHash_not_leading _)
  · exact names_readNameLike (startsName_of_isNameStart cs hc) hk
  · exact absurd hk (kind_readQuoted_not_leading c cs)
  · exact absurd hk (kind_readLess_not_leading _)
  · exact absurd hk (kind_readAt_not_leading _)
  · exact names_readBackslash hk

theorem names_of_mem_pass (o : Options) {c : Char} {cs : List Char} {t : Token}
    (ht : t ∈ (dialect.pass o c cs).tokens) (hk : t.kind ∈ leadingKinds) :
    Names (c :: cs) t := by
  rcases claimed_or_unclaimed c cs with ⟨s, hs, hc⟩ | hnone
  · rw [pass_tokens_of_claims hs o hc] at ht
    exact names_of_mem_scan hs o hc ht hk
  · rw [pass_tokens_of_unclaimed o hnone, List.mem_singleton] at ht
    subst ht
    exact absurd hk (Kind.not_mem_of_same (k := delim) (by decide))

theorem length_rest_of_silent (o : Options) {c : Char} {cs : List Char}
    (h : (dialect.pass o c cs).tokens = []) :
    (dialect.pass o c cs).rest.length + 2 ≤ (c :: cs).length := by
  rcases claimed_or_unclaimed c cs with ⟨s, hs, hc⟩ | hnone
  · have hrest : (dialect.pass o c cs).rest = (s.scan o (c :: cs)).rest :=
      congrArg Prod.snd (pass_of_claims hs o hc)
    rw [pass_tokens_of_claims hs o hc] at h
    rw [hrest]
    simp only [scanners, List.mem_cons, List.not_mem_nil, or_false] at hs
    rcases hs with rfl | rfl | rfl | rfl | rfl | rfl | rfl | rfl | rfl | rfl | rfl | rfl | rfl
    case inr.inr.inr.inr.inr.inr.inr.inr.inr.inl =>
      rcases startsComment_iff.mp hc with ⟨ds, hds⟩
      rw [hds]
      exact Nat.add_le_add_right (Text.readComment_suffix ds).length_le 2
    all_goals exact absurd h (List.cons_ne_nil _ _)
  · rw [pass_tokens_of_unclaimed o hnone] at h
    cases h

theorem names_of_head (o : Options) {l : Location} {cs : List Char} {t : Token}
    (hhead : (dialect.tokensFrom o l cs).head? = some t) (hk : t.kind ∈ leadingKinds) :
    exists input, Names input t ∧ (input = cs ∨ input.length + 2 ≤ cs.length) := by
  induction l, cs using Dialect.tokensFrom.induct dialect o with
  | case1 l =>
      rw [Dialect.tokensFrom_nil] at hhead
      cases hhead
      exact absurd hk (Kind.not_mem_of_same (k := Kind.eof) (by decide))
  | case2 l c cs found ih =>
      rw [Dialect.tokensFrom_cons] at hhead
      cases htokens : (dialect.pass o c cs).tokens with
      | nil =>
          have hshort : found.rest.length + 2 ≤ (c :: cs).length :=
            length_rest_of_silent o htokens
          rw [htokens] at hhead
          rcases ih hhead with ⟨input, hnames, hinput⟩
          refine ⟨input, hnames, Or.inr ?_⟩
          rcases hinput with rfl | hlen
          · exact hshort
          · omega
      | cons u us =>
          rw [htokens] at hhead
          cases hhead
          have hu : u ∈ (dialect.pass o c cs).tokens := by
            rw [htokens]
            exact List.mem_cons_self
          rw [Token.placed_kind] at hk
          exact ⟨c :: cs, (names_of_mem_pass o hu hk).placed l, Or.inl rfl⟩

/-!
## Plain names
-/

theorem not_startsNumber_of_startsName {cs : List Char} (h : startsName cs = true) :
    startsNumber cs = false := by
  cases cs with
  | nil => cases h
  | cons c cs =>
      rcases startsName_head h with rfl | rfl | hstart
      · cases cs with
        | nil => cases h
        | cons d cs =>
            apply not_startsNumber_hyphen
            have hcases : (isNameStart d || d == '-' || startsEscape (d :: cs)) = true := h
            simp only [Bool.or_eq_true, beq_iff_eq] at hcases
            rcases hcases with (hd | hd) | hescape
            · exact Or.inr (Or.inl hd)
            · exact Or.inr (Or.inr hd)
            · exact Or.inl (startsEscape_head hescape)
      · rfl
      · have hsign : ¬(c = '+' ∨ c = '-') := by
          rintro (rfl | rfl) <;> exact absurd hstart (by decide)
        have hpoint : c ≠ '.' := by
          rintro rfl
          exact absurd hstart (by decide)
        rw [startsNumber, if_neg hsign, not_isDigit_of_isNameStart hstart,
          startsFraction_of_ne hpoint]
        rfl

section Plain

variable {cs : List Char}

theorem not_cdc_of_plain (h : isPlainName cs = true) {m : Char} (hm : m ≠ '>')
    (rest : List Char) : ['-', '-', '>'].isPrefixOf (cs ++ m :: rest) = false := by
  rcases isPlainName_iff.mp h with ⟨hname, hall⟩
  rcases cs with _ | ⟨c, _ | ⟨d, _ | ⟨e, es⟩⟩⟩
  · cases hname
  · by_cases hc : c = '-'
    · subst hc
      cases hname
    · simp [List.isPrefixOf, Ne.symm hc]
  · simp [List.isPrefixOf, Ne.symm hm]
  · have he : '>' ≠ e := by
      rintro rfl
      exact absurd (hall '>' (by simp)) (by decide)
    simp [List.isPrefixOf, he]

theorem readName_plain (h : isPlainName cs = true) {m : Char} (hname : isNameChar m = false)
    (hback : m ≠ '\\') (rest : List Char) :
    readName (cs ++ m :: rest) = (cs, m :: rest) := by
  rw [readName_of_plain (isPlainName_iff.mp h).2, readName_of_end rest hname hback, List.append_nil]

theorem prepare_plain (h : isPlainName cs = true) {m : Char} (hm : isReplaced m = false)
    (rest : List Char) : prepare (cs ++ m :: rest) = cs ++ m :: prepare rest := by
  rw [prepare_append_of_prepared (prepared_of_nameChars (isPlainName_iff.mp h).2)]
  exact congrArg (cs ++ ·)
    (prepare_append_of_prepared (prepared_cons hm prepared_nil) rest)

theorem first?_of_plain (o : Options) (h : isPlainName cs = true) {m : Char}
    (hm : m ∈ nameMarks) {s : String} {rest : List Char} (hs : s.toList = cs ++ m :: rest) :
    dialect.first? o s = some (readNameLike (cs ++ m :: prepare rest)).1.unplaced := by
  have hend := endsName_of_mem hm
  have hnot : m ≠ '>' := by
    rintro rfl
    exact absurd hm (by decide)
  have hinput : dialect.prepare s.toList = cs ++ m :: prepare rest := by
    rw [hs]
    exact prepare_plain h hend.not_replaced rest
  have hname := startsName_append_of_plain h (m :: prepare rest)
  have hcdc := not_cdc_of_plain h hnot (prepare rest)
  cases htext : cs ++ m :: prepare rest with
  | nil =>
      rw [htext] at hname
      cases hname
  | cons c ds =>
      rw [htext] at hinput hname hcdc
      exact Dialect.first?_of_parts hinput
        (pass_of_name o hname (not_startsNumber_of_startsName hname) hcdc)

theorem first?_ident_of_plain (o : Options) (h : isPlainName cs = true) {s : String}
    {rest : List Char} (hs : s.toList = cs ++ ':' :: rest) :
    dialect.first? o s = some (.ofText ident cs) := by
  have hread := readName_plain h (m := ':') (by decide) (by decide) (prepare rest)
  rw [first?_of_plain o h (by decide) hs, readNameLike_of_ident hread (by simp)]
  rfl

theorem first?_function_of_plain (o : Options) (h : isPlainName cs = true)
    (hurl : Text.sameFolded (String.ofList cs) "url" = false) {s : String} {rest : List Char}
    (hs : s.toList = cs ++ '(' :: rest) :
    dialect.first? o s = some (.ofText function cs) := by
  have hread := readName_plain h (m := '(') (by decide) (by decide) (prepare rest)
  rw [first?_of_plain o h (by decide) hs, readNameLike_of_open hread, hurl]
  rfl

theorem first?_at (o : Options) {s : String} {input : List Char}
    (hs : s.toList = '@' :: input) :
    dialect.first? o s = some (readAt ('@' :: prepare input)).1.unplaced := by
  have hinput : dialect.prepare s.toList = '@' :: prepare input := by
    rw [hs]
    exact prepare_append_of_prepared (prepared_cons (by decide) prepared_nil) input
  have hpass : (dialect.pass o '@' (prepare input)).parts =
      ([(readAt ('@' :: prepare input)).1], (readAt ('@' :: prepare input)).2) := by
    rw [pass_of_claims (s := atScanner) (by simp [scanners]) o rfl]
    rfl
  exact Dialect.first?_of_parts hinput hpass

theorem first?_atKeyword_of_plain (o : Options) (h : isPlainName cs = true) {m : Char}
    (hname : isNameChar m = false) (hback : m ≠ '\\') (hm : isReplaced m = false) {s : String}
    {rest : List Char} (hs : s.toList = '@' :: (cs ++ m :: rest)) :
    dialect.first? o s = some (.ofText atKeyword cs) := by
  have hread : readAt ('@' :: (cs ++ m :: prepare rest)) =
      (.ofText atKeyword cs, m :: prepare rest) := by
    simp only [readAt, List.drop_succ_cons, List.drop_zero, startsName_append_of_plain h,
      readName_plain h hname hback]
    rfl
  rw [first?_at o hs, prepare_plain h hm, hread]
  rfl

/-!
## Names that are not plain
-/

theorem isPlainName_of_startsName {m : Char} (hm : EndsName m) (hne : cs ≠ [])
    (hall : forall c, c ∈ cs -> isNameChar c = true) {rest : List Char}
    (hname : startsName (cs ++ m :: rest) = true) : isPlainName cs = true := by
  have hescape : forall c, c ∈ cs -> forall ds, startsEscape (c :: ds) = false :=
    fun c hc ds => startsEscape_of_isNameChar (hall c hc) ds
  refine isPlainName_iff.mpr ⟨?_, hall⟩
  rcases cs with _ | ⟨c, _ | ⟨d, ds⟩⟩
  · exact absurd rfl hne
  · by_cases hc : c = '-'
    · subst hc
      have hcases : (isNameStart m || m == '-' || startsEscape (m :: rest)) = true := hname
      have hstart : isNameStart m = false := by
        rw [Bool.eq_false_iff]
        intro h
        have hchar := isNameChar_of_isNameStart h
        rw [hm.not_name] at hchar
        cases hchar
      have hhyphen : m ≠ '-' := by
        rintro rfl
        exact absurd hm.not_name (by decide)
      rw [hstart, startsEscape_of_ne hm.ne_backslash] at hcases
      simp [hhyphen] at hcases
    · rw [List.singleton_append, startsName_of_ne hc, hescape c List.mem_cons_self,
        Bool.or_false] at hname
      exact startsName_of_isNameStart [] hname
  · by_cases hc : c = '-'
    · subst hc
      have hcases : (isNameStart d || d == '-' || startsEscape (d :: (ds ++ m :: rest))) =
          true := hname
      rw [hescape d (by simp)] at hcases
      show (isNameStart d || d == '-' || startsEscape (d :: ds)) = true
      rw [hescape d (by simp)]
      exact hcases
    · rw [List.cons_append, startsName_of_ne hc, hescape c List.mem_cons_self,
        Bool.or_false] at hname
      exact startsName_of_isNameStart _ hname

/-- The name of the first token of a text that starts with that name and a mark, with at
most what belongs to the token behind them, is plain. -/
theorem isPlainName_of_first? {k : Kind} {m : Char} (hm : EndsName m) (hk : k ∈ leadingKinds)
    (hne : cs ≠ []) {s : String} {rest : List Char} (hs : s.toList = cs ++ m :: rest)
    (hshort : rest.length ≤ if k.same function then 1 else 0)
    (hfirst : dialect.first? {} s = some (.ofText k cs)) : isPlainName cs = true := by
  rcases Option.map_eq_some_iff.mp hfirst with ⟨t, hhead, ht⟩
  have hkind : t.kind = k := (t.placed_kind .unknown).symm.trans (congrArg Token.kind ht)
  rcases names_of_head {} hhead (hkind ▸ hk) with ⟨input, hnames, hinput⟩
  have hvalue : (readName input).1 = cs := by
    rcases t with ⟨kind, payload, location, error⟩
    have hpayload : payload = .text (String.ofList (readName input).1) := hnames.payload
    subst hpayload
    have htext : Payload.text (String.ofList (readName input).1) = .text (String.ofList cs) :=
      congrArg Token.payload ht
    exact String.ofList_injective (Payload.text.inj htext)
  -- Behind a comment there is not enough text left for the name.
  have hwhole : input = prepare (cs ++ m :: rest) := by
    rcases hinput with rfl | hlen
    · rw [hs]
      rfl
    · have hprepared : (dialect.prepare s.toList).length ≤ s.toList.length :=
        length_prepare_le s.toList
      have hread := readName_length_le input
      rw [hs, List.length_append, List.length_cons] at hprepared
      rw [hs] at hlen
      rw [hvalue] at hread
      split at hshort
      · rename_i hfunction
        have hopen := List.length_pos_of_ne_nil (hnames.opens (by rw [Token.is, hkind, hfunction]))
        omega
      · omega
  rw [hwhole] at hvalue hnames
  have hall := all_isNameChar_of_readName hm hvalue
  have hstarts := hnames.starts
  rw [prepare_append_mark hm, prepare_of_prepared (prepared_of_nameChars hall)] at hstarts
  exact isPlainName_of_startsName hm hne hall hstarts

theorem isPlainName_of_first?_at {m : Char} (hm : EndsName m) (hne : cs ≠ []) {s : String}
    {rest : List Char} (hs : s.toList = '@' :: (cs ++ m :: rest)) (o : Options)
    (hfirst : dialect.first? o s = some (.ofText atKeyword cs)) : isPlainName cs = true := by
  rw [first?_at o hs] at hfirst
  have htoken := Option.some.inj hfirst
  simp only [readAt, List.drop_succ_cons, List.drop_zero] at htoken
  split at htoken
  · rename_i hstarts
    have hvalue : (readName (prepare (cs ++ m :: rest))).1 = cs := ofText_inj.mp htoken
    have hall := all_isNameChar_of_readName hm hvalue
    rw [prepare_append_mark hm, prepare_of_prepared (prepared_of_nameChars hall)] at hstarts
    exact isPlainName_of_startsName hm hne hall hstarts
  · have hkind : delim = atKeyword := congrArg Token.kind htoken
    exact absurd hkind (Kind.ne_of_same (by decide))

end Plain

end Css
end StyleTokens
