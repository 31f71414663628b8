import StyleTokens.Proofs.Css.Locality

/-!
# Texts one behind the other

Where a closing brace or a semicolon is cut as the last token of a text, the
tokens of this text do not change with more text behind it, and what stands
behind it is cut as a text of its own.
-/

namespace StyleTokens
namespace Css

/-!
## Kinds

Only punctuation is cut into the tokens that end rules, and nothing is cut into the
token for the end of a text.
-/

def looseKinds : List Kind :=
  [whitespace, comment, delim, cdo, cdc, ident, function, hash, atKeyword, number, percentage,
    dimension, badNumber, string, badString, url, badUrl]

theorem delim_mem_looseKinds : delim ∈ looseKinds := by
  simp [looseKinds]

theorem kind_withUnit_mem (n : Number) (cs : List Char) :
    (withUnit n cs).1.kind ∈ looseKinds := by
  unfold withUnit
  split
  · exact show dimension ∈ looseKinds by simp [looseKinds]
  · cases cs with
    | nil => exact show number ∈ looseKinds by simp [looseKinds]
    | cons c cs =>
        dsimp only
        split
        · exact show percentage ∈ looseKinds by simp [looseKinds]
        · exact show number ∈ looseKinds by simp [looseKinds]

theorem kind_readNumeric_mem (cs : List Char) : (readNumeric cs).1.kind ∈ looseKinds := by
  simp only [readNumeric]
  split
  · exact show badNumber ∈ looseKinds by simp [looseKinds]
  · exact kind_withUnit_mem _ _

theorem kind_addressToken_mem (cs : List Char) : (addressToken cs).1.kind ∈ looseKinds := by
  simp only [addressToken]
  split
  · exact show url ∈ looseKinds by simp [looseKinds]
  · exact show badUrl ∈ looseKinds by simp [looseKinds]

theorem kind_readNameLike_mem (cs : List Char) : (readNameLike cs).1.kind ∈ looseKinds := by
  simp only [readNameLike]
  split
  · split
    · exact kind_addressToken_mem _
    · exact show function ∈ looseKinds by simp [looseKinds]
  · exact show ident ∈ looseKinds by simp [looseKinds]

theorem kind_readNumberOrDelim_mem (c : Char) (cs : List Char) :
    (readNumberOrDelim (c :: cs)).1.kind ∈ looseKinds := by
  rw [readNumberOrDelim]
  split
  · exact kind_readNumeric_mem _
  · exact delim_mem_looseKinds

theorem kind_readHyphen_mem (c : Char) (cs : List Char) :
    (readHyphen (c :: cs)).1.kind ∈ looseKinds := by
  rw [readHyphen]
  split
  · exact kind_readNumeric_mem _
  · split
    · exact show cdc ∈ looseKinds by simp [looseKinds]
    · split
      · exact kind_readNameLike_mem _
      · exact delim_mem_looseKinds

theorem kind_readHash_mem (cs : List Char) : (readHash ('#' :: cs)).1.kind ∈ looseKinds := by
  simp only [readHash]
  split
  · exact show hash ∈ looseKinds by simp [looseKinds]
  · exact delim_mem_looseKinds

theorem kind_readQuoted_mem (quote : Char) (cs : List Char) :
    (readQuoted (quote :: cs)).1.kind ∈ looseKinds := by
  simp only [readQuoted]
  split
  · exact show string ∈ looseKinds by simp [looseKinds]
  · exact show badString ∈ looseKinds by simp [looseKinds]

theorem kind_readLess_mem (cs : List Char) : (readLess ('<' :: cs)).1.kind ∈ looseKinds := by
  rw [readLess]
  split
  · exact show cdo ∈ looseKinds by simp [looseKinds]
  · exact delim_mem_looseKinds

theorem kind_readAt_mem (cs : List Char) : (readAt ('@' :: cs)).1.kind ∈ looseKinds := by
  simp only [readAt]
  split
  · exact show atKeyword ∈ looseKinds by simp [looseKinds]
  · exact delim_mem_looseKinds

theorem kind_readBackslash_mem (cs : List Char) :
    (readBackslash ('\\' :: cs)).1.kind ∈ looseKinds := by
  rw [readBackslash]
  split
  · exact kind_readNameLike_mem _
  · exact delim_mem_looseKinds

theorem kind_readPunctuation {c : Char} (cs : List Char) (h : (punctuation? c).isSome = true) :
    punctuation? c = some (readPunctuation (c :: cs)).1.kind := by
  rcases Option.isSome_iff_exists.mp h with ⟨k, hk⟩
  show punctuation? c = some ((punctuation? c).getD delim)
  rw [hk]
  rfl

theorem kind_of_mem_scan {s : Scanner} (hs : s ∈ scanners) (o : Options) {c : Char}
    {cs : List Char} (hc : s.claims (c :: cs) = true) {t : Token}
    (ht : t ∈ (s.scan o (c :: cs)).tokens) :
    punctuation? c = some t.kind ∨ t.kind ∈ looseKinds := by
  simp only [scanners, List.mem_cons, List.not_mem_nil, or_false] at hs
  rcases hs with rfl | rfl | rfl | rfl | rfl | rfl | rfl | rfl | rfl | rfl | rfl | rfl | rfl
  · rcases List.mem_singleton.mp ht with rfl
    exact Or.inr (show whitespace ∈ looseKinds by simp [looseKinds])
  · rcases List.mem_singleton.mp ht with rfl
    exact Or.inl (kind_readPunctuation cs hc)
  · rcases List.mem_singleton.mp ht with rfl
    exact Or.inr (kind_readNumberOrDelim_mem c cs)
  · rcases List.mem_singleton.mp ht with rfl
    exact Or.inr (kind_readHyphen_mem c cs)
  · rcases List.mem_singleton.mp ht with rfl
    exact Or.inr (kind_readNumeric_mem _)
  · rcases List.mem_singleton.mp ht with rfl
    exact Or.inr (kind_readNumberOrDelim_mem c cs)
  · rcases List.mem_singleton.mp ht with rfl
    rcases (startsWith_cons cs).mp hc with rfl
    exact Or.inr (kind_readHash_mem cs)
  · rcases List.mem_singleton.mp ht with rfl
    exact Or.inr (kind_readNameLike_mem _)
  · rcases List.mem_singleton.mp ht with rfl
    exact Or.inr (kind_readQuoted_mem c cs)
  · replace ht : t ∈ if o.keepComments then
        [Token.ofText comment (Text.readComment ((c :: cs).drop 2)).1] else [] := ht
    split at ht
    · rcases List.mem_singleton.mp ht with rfl
      exact Or.inr (show comment ∈ looseKinds by simp [looseKinds])
    · cases ht
  · rcases List.mem_singleton.mp ht with rfl
    rcases (startsWith_cons cs).mp hc with rfl
    exact Or.inr (kind_readLess_mem cs)
  · rcases List.mem_singleton.mp ht with rfl
    rcases (startsWith_cons cs).mp hc with rfl
    exact Or.inr (kind_readAt_mem cs)
  · rcases List.mem_singleton.mp ht with rfl
    rcases (startsWith_cons cs).mp hc with rfl
    exact Or.inr (kind_readBackslash_mem cs)

theorem kind_of_mem_pass (o : Options) {c : Char} {cs : List Char} {t : Token}
    (ht : t ∈ (dialect.pass o c cs).tokens) :
    punctuation? c = some t.kind ∨ t.kind ∈ looseKinds := by
  rcases claimed_or_unclaimed c cs with ⟨s, hs, hc⟩ | hnone
  · rw [pass_tokens_of_claims hs o hc] at ht
    exact kind_of_mem_scan hs o hc ht
  · rw [pass_tokens_of_unclaimed o hnone] at ht
    rcases List.mem_singleton.mp ht with rfl
    exact Or.inr delim_mem_looseKinds

/-!
## Ends
-/

theorem punctuation?_isEof {c : Char} {k : Kind} (h : punctuation? c = some k) :
    k.same .eof = false := by
  have hsome : (punctuation? c).isSome = true := by
    rw [h]
    rfl
  rcases punctuation?_cases hsome with rfl | rfl | rfl | rfl | rfl | rfl | rfl | rfl | rfl
  all_goals
    rcases Option.some.inj h with rfl
    decide

theorem isEof_of_mem_pass (o : Options) {c : Char} {cs : List Char} {t : Token}
    (ht : t ∈ (dialect.pass o c cs).tokens) : t.isEof = false := by
  have hloose : forall k, k ∈ looseKinds -> k.same .eof = false := by
    decide
  rcases kind_of_mem_pass o ht with hpunctuation | hmem
  · exact punctuation?_isEof hpunctuation
  · exact hloose t.kind hmem

def endsRule (t : Token) : Bool :=
  t.is closeBrace || t.is semicolon

theorem isBoundary_of_endsRule (o : Options) {c : Char} {cs : List Char} {t : Token}
    (ht : t ∈ (dialect.pass o c cs).tokens) (hends : endsRule t = true) :
    isBoundary c = true := by
  have hloose : forall k, k ∈ looseKinds -> (k.same closeBrace || k.same semicolon) = false := by
    decide
  rcases kind_of_mem_pass o ht with hpunctuation | hmem
  · have hsome : (punctuation? c).isSome = true := by
      rw [hpunctuation]
      rfl
    rw [endsRule, Token.is, Token.is] at hends
    rcases punctuation?_cases hsome with rfl | rfl | rfl | rfl | rfl | rfl | rfl | rfl | rfl
    all_goals
      rw [← Option.some.inj hpunctuation] at hends
      first
        | rfl
        | exact absurd hends (by decide)
  · rw [endsRule, Token.is, Token.is, hloose t.kind hmem] at hends
    cases hends

/-!
## Texts
-/

theorem past_pass (o : Options) (l : Location) (c : Char) (cs : List Char) :
    ((l.step c).past (dialect.pass o c cs).taken).past (dialect.pass o c cs).rest =
      l.past (c :: cs) := by
  rw [← Location.past_append, Scan.taken_append_rest, Location.past_cons]

theorem tokensFrom_eq_append (o : Options) (l : Location) (cs : List Char) :
    exists front, (forall t, t ∈ front -> t.isEof = false) ∧
      dialect.tokensFrom o l cs = front ++ [Token.eof.placed (l.past cs)] := by
  induction l, cs using Dialect.tokensFrom.induct dialect o with
  | case1 l => exact ⟨[], by simp, Dialect.tokensFrom_nil dialect o l⟩
  | case2 l c cs found ih =>
      rcases ih with ⟨front, hfree, hfront⟩
      refine ⟨(dialect.pass o c cs).tokens.map (fun t => t.placed l) ++ front, ?_, ?_⟩
      · intro t ht
        rcases List.mem_append.mp ht with hpass | hmem
        · rcases List.mem_map.mp hpass with ⟨u, hu, rfl⟩
          rw [Token.isEof, Token.is, Token.placed_kind]
          exact isEof_of_mem_pass o hu
        · exact hfree t hmem
      · rw [Dialect.tokensFrom_cons, hfront, past_pass, List.append_assoc]

theorem pass_of_isBoundary (o : Options) {c : Char} (hc : isBoundary c = true)
    (cs : List Char) :
    (dialect.pass o c cs).parts = ([.bare ((punctuation? c).getD delim)], cs) := by
  have hclaims : punctuationScanner.claims (c :: cs) = true := by
    rcases Bool.or_eq_true_iff.mp hc with hsemicolon | hbrace
    · rcases beq_iff_eq.mp hsemicolon with rfl
      rfl
    · rcases beq_iff_eq.mp hbrace with rfl
      rfl
  rw [pass_of_claims (by simp [scanners]) o hclaims]
  rfl

theorem tokensFrom_of_isBoundary (o : Options) (l : Location) {c : Char}
    (hc : isBoundary c = true) (cs : List Char) :
    dialect.tokensFrom o l (c :: cs) =
      (Token.bare ((punctuation? c).getD delim)).placed l ::
        dialect.tokensFrom o (l.step c) cs := by
  rcases Prod.mk.inj (pass_of_isBoundary o hc cs) with ⟨htokens, hrest⟩
  have htaken : (dialect.pass o c cs).taken = [] := by
    have hall := (dialect.pass o c cs).taken_append_rest
    rw [hrest] at hall
    exact List.append_left_eq_self.mp hall
  rw [Dialect.tokensFrom_cons, htokens, hrest, htaken]
  rfl

theorem tokensFrom_pass_append (o : Options) (l : Location) {c : Char} {cs : List Char}
    (h : Bounded (c :: cs)) (hrest : (dialect.pass o c cs).rest ≠ []) (x : List Char) :
    dialect.tokensFrom o l (c :: (cs ++ x)) =
      (dialect.pass o c cs).tokens.map (fun t => t.placed l) ++
        dialect.tokensFrom o ((l.step c).past (dialect.pass o c cs).taken)
          ((dialect.pass o c cs).rest ++ x) := by
  rcases Prod.mk.inj (pass_append o h hrest x) with ⟨htokens, hleft⟩
  have htaken : (dialect.pass o c (cs ++ x)).taken = (dialect.pass o c cs).taken := by
    have hlong := (dialect.pass o c (cs ++ x)).taken_append_rest
    rw [hleft, ← List.append_assoc] at hlong
    have hshort := (dialect.pass o c cs).taken_append_rest
    exact List.append_cancel_right ((List.append_cancel_right hlong).trans hshort.symm)
  rw [Dialect.tokensFrom_cons, htokens, hleft, htaken]

/-- The text is cut into these tokens in front of any other text, and that text as if
it stood alone. -/
def Cuts (o : Options) (l : Location) (cs : List Char) (ts : List Token) : Prop :=
  Bounded cs ∧ forall x,
    dialect.tokensFrom o l (cs ++ x) = ts ++ dialect.tokensFrom o (l.past cs) x

theorem cuts_of_isBoundary (o : Options) (l : Location) {c : Char}
    (hc : isBoundary c = true) :
    Cuts o l [c] [(Token.bare ((punctuation? c).getD delim)).placed l] := by
  constructor
  · exact .last hc
  · intro x
    exact tokensFrom_of_isBoundary o l hc x

theorem Cuts.pass {o : Options} {l : Location} {c : Char} {cs : List Char} {ts : List Token}
    (h : Cuts o ((l.step c).past (dialect.pass o c cs).taken) (dialect.pass o c cs).rest ts) :
    Cuts o l (c :: cs) ((dialect.pass o c cs).tokens.map (fun t => t.placed l) ++ ts) := by
  rcases h with ⟨hbounded, hmore⟩
  have htail : Bounded cs := by
    rw [← (dialect.pass o c cs).taken_append_rest]
    exact hbounded.append _
  constructor
  · exact .cons htail
  · intro x
    rw [List.cons_append, tokensFrom_pass_append o l (.cons htail) hbounded.ne_nil, hmore x,
      past_pass, List.append_assoc]

theorem isBoundary_of_mem_pass {o : Options} {l : Location} {c : Char} {cs : List Char}
    {last : Token} (hmem : last ∈ (dialect.pass o c cs).tokens.map fun t => t.placed l)
    (hends : endsRule last = true)
    (hlast : last.location.offset + 1 = l.offset + (c :: cs).length) :
    cs = [] ∧ isBoundary c = true := by
  rcases List.mem_map.mp hmem with ⟨t, ht, rfl⟩
  rw [Token.placed_location, List.length_cons] at hlast
  rw [endsRule, Token.is, Token.is, Token.placed_kind] at hends
  constructor
  · exact List.length_eq_zero_iff.mp (by omega)
  · exact isBoundary_of_endsRule o ht hends

theorem offset_pass (o : Options) (l : Location) (c : Char) (cs : List Char) :
    ((l.step c).past (dialect.pass o c cs).taken).offset + (dialect.pass o c cs).rest.length =
      l.offset + (c :: cs).length := by
  have hlength := congrArg List.length (dialect.pass o c cs).taken_append_rest
  rw [List.length_append] at hlength
  rw [Location.past_offset, Location.step_offset, List.length_cons]
  omega

/-- A text whose last character is cut as the end of a rule is cut the same in front
of any other text. -/
theorem cuts_of_endsRule (o : Options) {l : Location} {cs : List Char} {front : List Token}
    {last : Token}
    (hread : dialect.tokensFrom o l cs = front ++ [last] ++ [Token.eof.placed (l.past cs)])
    (hends : endsRule last = true) (hlast : last.location.offset + 1 = l.offset + cs.length) :
    Cuts o l cs (front ++ [last]) := by
  induction l, cs using Dialect.tokensFrom.induct dialect o generalizing front with
  | case1 l =>
      rw [Dialect.tokensFrom_nil] at hread
      have hlen := congrArg List.length hread
      simp at hlen
  | case2 l c cs found =>
      rename_i ih
      rcases tokensFrom_eq_append o ((l.step c).past (dialect.pass o c cs).taken)
        (dialect.pass o c cs).rest with ⟨after, _, hafter⟩
      have hcut : (dialect.pass o c cs).tokens.map (fun t => t.placed l) ++ after =
          front ++ [last] := by
        rw [Dialect.tokensFrom_cons, hafter, past_pass, ← List.append_assoc] at hread
        exact List.append_cancel_right hread
      rcases List.eq_nil_or_concat after with rfl | ⟨others, u, rfl⟩
      · -- the last token is cut from the first character, so that is all there is
        have hmem : last ∈ (dialect.pass o c cs).tokens.map fun t => t.placed l := by
          rw [← List.append_nil (List.map _ _), hcut]
          simp
        rcases isBoundary_of_mem_pass hmem hends hlast with ⟨rfl, hc⟩
        have htokens := congrArg Prod.fst (pass_of_isBoundary o hc [])
        rw [← hcut, show (dialect.pass o c []).tokens = _ from htokens]
        exact cuts_of_isBoundary o l hc
      · rw [List.concat_eq_append] at hcut hafter
        have hsplit := hcut
        rw [← List.append_assoc] at hsplit
        rcases List.append_inj' hsplit rfl with ⟨_, hu⟩
        rcases (List.cons.inj hu).1 with rfl
        have hothers := ih hafter (hlast.trans (offset_pass o l c cs).symm)
        rw [← hcut]
        exact hothers.pass

/-!
## Prepared texts
-/

theorem prepare_ne_nil (c : Char) (cs : List Char) : prepare (c :: cs) ≠ [] := by
  rw [prepare.eq_def]
  split
  · rename_i heq
    cases heq
  · exact List.cons_ne_nil _ _
  · exact List.cons_ne_nil _ _

theorem prepare_append {cs : List Char} (h : Bounded (prepare cs)) (x : List Char) :
    prepare (cs ++ x) = prepare cs ++ prepare x := by
  fun_induction prepare cs with
  | case1 => exact absurd rfl h.ne_nil
  | case2 cs ih =>
      have htail : Bounded (prepare cs) := h.tail (by decide)
      rw [List.cons_append, List.cons_append, prepare, ih htail]
      rfl
  | case3 c cs hline ih =>
      cases cs with
      | nil =>
          have hc : c ≠ '\r' := by
            rintro rfl
            exact (h.tail (by decide)).ne_nil rfl
          rw [List.singleton_append, prepare.eq_3 c x fun _ heq _ => hc heq]
          rfl
      | cons d ds =>
          have hline' : forall es, c = '\r' -> d :: (ds ++ x) = '\n' :: es -> False := by
            intro es hc heq
            rcases List.cons.inj heq with ⟨rfl, -⟩
            exact hline ds hc rfl
          have htail := ih (h.tail_of_ne_nil (prepare_ne_nil d ds))
          rw [List.cons_append] at htail
          rw [List.cons_append, List.cons_append, prepare.eq_3 c _ hline', htail]
          rfl

end Css
end StyleTokens
