import Mathlib.Data.List.Induction
import StyleTokens.Proofs.Css.Pass
import StyleTokens.Proofs.Json5.Pass

/-!
# Where tokens stand

A location that moves over a text character by character is the one that counts the
line feeds before it.  Every token of a text is placed where its pass started, and a
pass that emits one token at most leaves no two tokens at the same place.
-/

namespace StyleTokens

namespace Location

/-- The location behind the first `n` characters of a text.  Every line feed among
them opens a line, and the column counts the characters behind the last one. -/
def behind (cs : List Char) (n : Nat) : Location :=
  { line := 1 + (cs.take n).count '\n'
    column := 1 + ((cs.take n).reverse.takeWhile fun c => c != '\n').length
    offset := n }

theorem start_past (cs : List Char) : start.past cs = behind cs cs.length := by
  induction cs using List.reverseRecOn with
  | nil => rfl
  | append_singleton cs c ih =>
      rw [past_append, ih, past_cons, past_nil, behind, behind, List.take_length, List.take_length]
      by_cases hc : c = '\n'
      · subst hc
        simp [step, Nat.add_assoc]
      · simp [step, hc, Nat.add_comm]

theorem start_past_append (front rest : List Char) :
    start.past front = behind (front ++ rest) front.length := by
  rw [start_past, behind, behind, List.take_length, List.take_left]

end Location

namespace Token

theorem placed_inner {t u : Token} {l : Location} (h : (t.placed l).payload = .inner u) :
    u.location = (t.placed l).location := by
  rw [placed_location]
  rcases t with ⟨kind, payload, location, error⟩
  cases payload with
  | inner v =>
      rcases Payload.inner.inj h with rfl
      exact placed_location v l
  | _ => cases h

end Token

namespace Dialect

variable {d : Dialect} {o : Options}

/-!
## Places of tokens
-/

theorem offset_le_of_mem_tokensFrom {l : Location} {cs : List Char} {t : Token}
    (ht : t ∈ d.tokensFrom o l cs) : l.offset ≤ t.location.offset := by
  induction l, cs using tokensFrom.induct d o with
  | case1 l =>
      rw [tokensFrom_nil] at ht
      rcases List.mem_singleton.mp ht with rfl
      exact Nat.le_refl l.offset
  | case2 l c cs found ih =>
      rw [tokensFrom_cons, List.mem_append] at ht
      rcases ht with ht | ht
      · rcases List.mem_map.mp ht with ⟨u, -, rfl⟩
        exact Nat.le_of_eq (congrArg Location.offset (Token.placed_location u l)).symm
      · have hbehind := ih ht
        rw [Location.past_offset, Location.step_offset] at hbehind
        omega

theorem location_of_mem_tokensFrom (front : List Char) {input : List Char} {l : Location}
    {t : Token} (hl : l = .past .start front) (ht : t ∈ d.tokensFrom o l input) :
    exists n, t.location = .behind (front ++ input) n := by
  induction l, input using tokensFrom.induct d o generalizing front with
  | case1 l =>
      rw [tokensFrom_nil] at ht
      rcases List.mem_singleton.mp ht with rfl
      exact ⟨front.length, by rw [Token.placed_location, hl, <- Location.start_past_append]⟩
  | case2 l c cs found =>
      rename_i ih
      rw [tokensFrom_cons, List.mem_append] at ht
      rcases ht with ht | ht
      · rcases List.mem_map.mp ht with ⟨u, -, rfl⟩
        exact ⟨front.length, by rw [Token.placed_location, hl, <- Location.start_past_append]⟩
      · -- the rest is read behind the front, the first character and what the pass took
        have hmoved : (l.step c).past found.taken =
            .past .start (front ++ c :: found.taken) := by
          rw [Location.past_append, <- hl, Location.past_cons]
        have hwhole : front ++ c :: found.taken ++ found.rest = front ++ c :: cs := by
          rw [List.append_assoc, List.cons_append, found.taken_append_rest]
        rw [<- hwhole]
        exact ih _ hmoved ht

theorem location_of_mem_tokenize {s : String} {t : Token} (ht : t ∈ d.tokenize o s) :
    t.location = .behind (d.prepare s.toList) t.location.offset := by
  rcases location_of_mem_tokensFrom [] rfl ht with ⟨n, hn⟩
  rw [hn]
  rfl

theorem inner_of_mem_tokensFrom {l : Location} {cs : List Char} {t u : Token}
    (ht : t ∈ d.tokensFrom o l cs) (hu : t.payload = .inner u) : u.location = t.location := by
  induction l, cs using tokensFrom.induct d o with
  | case1 l =>
      rw [tokensFrom_nil] at ht
      rcases List.mem_singleton.mp ht with rfl
      exact Token.placed_inner hu
  | case2 l c cs found ih =>
      rw [tokensFrom_cons, List.mem_append] at ht
      rcases ht with ht | ht
      · rcases List.mem_map.mp ht with ⟨v, -, rfl⟩
        exact Token.placed_inner hu
      · exact ih ht

theorem getLast?_tokensFrom (d : Dialect) (o : Options) (l : Location) (cs : List Char) :
    (d.tokensFrom o l cs).getLast? = some (Token.eof.placed (l.past cs)) := by
  induction l, cs using tokensFrom.induct d o with
  | case1 l =>
      rw [tokensFrom_nil]
      rfl
  | case2 l c cs found ih =>
      rw [tokensFrom_cons, List.getLast?_append, ih, Option.some_or, <- Location.past_append,
        found.taken_append_rest, Location.past_cons]

/-!
## One token at most
-/

def EmitsOne (d : Dialect) : Prop :=
  forall o c cs, (d.pass o c cs).tokens.length ≤ 1

/-- Passes emit one token at most where the scanners do and always move on. -/
theorem emitsOne_of_scanners
    (hone : forall s, s ∈ d.scanners -> forall o cs, (s.scan o cs).tokens.length ≤ 1)
    (hmoves : forall s, s ∈ d.scanners -> forall o c cs, s.claims (c :: cs) = true ->
      (s.scan o (c :: cs)).rest <:+ cs) : d.EmitsOne := by
  intro o c cs
  unfold pass
  split
  · rename_i s hfind
    have hs : s ∈ d.scanners := List.mem_of_find?_eq_some hfind
    have hclaims : s.claims (c :: cs) = true := by
      simpa using List.find?_some hfind
    have hmoved : (s.scan o (c :: cs)).rest ≠ c :: cs := by
      intro h
      have hlen := (hmoves s hs o c cs hclaims).length_le
      rw [h, List.length_cons] at hlen
      omega
    rw [dif_neg hmoved]
    exact hone s hs o (c :: cs)
  · exact Nat.le_refl 1

theorem pairwise_tokensFrom (hd : d.EmitsOne) (l : Location) (cs : List Char) :
    (d.tokensFrom o l cs).Pairwise fun t u => t.location.offset < u.location.offset := by
  induction l, cs using tokensFrom.induct d o with
  | case1 l =>
      rw [tokensFrom_nil]
      exact List.pairwise_singleton _ _
  | case2 l c cs found ih =>
      rw [tokensFrom_cons, List.pairwise_append]
      refine ⟨?_, ih, ?_⟩
      · -- a list of one token at most has no two tokens to compare
        have hlen : ((d.pass o c cs).tokens.map fun t => t.placed l).length ≤ 1 := by
          rw [List.length_map]
          exact hd o c cs
        exact List.pairwise_iff_getElem.mpr fun i j hi hj hij => by omega
      · intro t ht u hu
        rcases List.mem_map.mp ht with ⟨v, -, rfl⟩
        have hbehind := offset_le_of_mem_tokensFrom hu
        rw [Location.past_offset, Location.step_offset] at hbehind
        rw [Token.placed_location]
        omega

end Dialect

theorem Css.emitsOne : Css.dialect.EmitsOne := by
  apply Dialect.emitsOne_of_scanners
  · intro s hs o cs
    simp only [Css.dialect, Css.scanners, List.mem_cons, List.not_mem_nil, or_false] at hs
    rcases hs with rfl | rfl | rfl | rfl | rfl | rfl | rfl | rfl | rfl | rfl | rfl | rfl | rfl
    case inr.inr.inr.inr.inr.inr.inr.inr.inr.inl =>
      -- a comment is emitted or left out
      show (if o.keepComments then [_] else []).length ≤ 1
      split <;> simp
    all_goals exact Nat.le_refl 1
  · intro s hs o c cs hc
    exact Css.scan_suffix_tail hs o hc

theorem Json5.emitsOne : Json5.dialect.EmitsOne := by
  apply Dialect.emitsOne_of_scanners
  · intro s hs o cs
    simp only [Json5.dialect, List.mem_cons, List.not_mem_nil, or_false] at hs
    rcases hs with rfl | rfl | rfl | rfl | rfl | rfl | rfl
    case inr.inr.inr.inl => exact Nat.zero_le 1
    all_goals exact Nat.le_refl 1
  · intro s hs o c cs hc
    exact Json5.scan_suffix_tail hs o hc

/-!
## Tokens of a text
-/

/-- The tokens stand in the text one behind the other, each where it says, up to the
end of the text, which is the last of them. -/
structure Located (cs : List Char) (ts : List Token) : Prop where
  /-- No two tokens start at the same character. -/
  increasing : ts.Pairwise fun t u => t.location.offset < u.location.offset
  ends : exists t, ts.getLast? = some t ∧ t.isEof = true ∧ t.location.offset = cs.length
  /-- Line and column of a token follow from its offset. -/
  counted : forall t, t ∈ ts -> t.location = .behind cs t.location.offset
  /-- The token inside a faulty one stands where that one does. -/
  inner : forall t, t ∈ ts -> forall u, t.payload = .inner u ->
    u.location = .behind cs t.location.offset

theorem Dialect.located_tokenize {d : Dialect} (hd : d.EmitsOne) (o : Options) (s : String) :
    Located (d.prepare s.toList) (d.tokenize o s) where
  increasing := Dialect.pairwise_tokensFrom hd .start _
  ends := by
    refine ⟨_, d.getLast?_tokensFrom o .start (d.prepare s.toList), rfl, ?_⟩
    rw [Token.placed_location, Location.past_offset]
    exact Nat.zero_add _
  counted := by
    intro t ht
    exact Dialect.location_of_mem_tokenize ht
  inner := by
    intro t ht u hu
    rw [Dialect.inner_of_mem_tokensFrom ht hu]
    exact Dialect.location_of_mem_tokenize ht

/-- In style sheets and in data documents every token stands where its location says,
and no two tokens stand at the same place. -/
theorem tokenize_located (o : Options) (s : String) :
    Located (Css.prepare s.toList) (Css.tokenize o s) ∧ Located s.toList (Json5.tokenize o s) :=
  ⟨Dialect.located_tokenize Css.emitsOne o s, Dialect.located_tokenize Json5.emitsOne o s⟩

end StyleTokens
