import StyleTokens.Proofs.Css.Concat
import StyleTokens.Proofs.Css.ReadBack.Apart

/-!
# Runs that stand apart are read back

The tokens of a style sheet are written one behind the other, without a look at
what follows.  They come back from their text if no token goes on in the text
behind it.
-/

namespace StyleTokens
namespace Css

open Encoding

/-!
## Tokens and what follows them
-/

/-- Does the text behind a written token go on with it? -/
def goesOn (t : Token) (rest : List Char) : Bool :=
  if t.is whitespace then startsBlank rest
  else if t.is ident then
    startsHashName rest || rest.head? == some '(' || startsCdc (writeName t.text.toList ++ rest)
  else if t.is hash || t.is atKeyword then startsHashName rest
  else if t.is function then
    Text.sameFolded t.text "url" && !startsQuote (rest.dropWhile isBlank)
  else
    match t.payload with
    | .number _ => goesOnNumber rest
    | .dimension n unit => t.is dimension && goesOnUnit n unit.toList rest
    | .char c => goesOnLone c rest
    | _ => false

def standApart : List Token -> Bool
  | [] => true
  | t :: ts => !goesOn t (Token.runSource ts).toList && standApart ts

/-- The text of the token says all that its value does: a string holds no line end
that preparing replaces, a number is named by its text, and a unit needs no escape. -/
structure Faithful (t : Token) : Prop where
  string : t.kind = string -> '\r' ∉ t.text.toList ∧ '\x0C' ∉ t.text.toList
  number : forall n, t.asNumber? = some n -> Printed n
  unit : t.kind = dimension -> forall unit, t.unit? = some unit -> isPlainName unit.toList = true

/-- A token as it is cut from a text without an error, which its text says all of. -/
structure Legible (t : Token) : Prop where
  lexeme : Lexeme t
  sound : t.isFaulty = false
  ne_eof : t.kind ≠ .eof
  faithful : Faithful t

theorem Faithful.of_kind {t : Token} (hstring : t.kind ≠ Css.string)
    (hdimension : t.kind ≠ dimension) (hnumber : t.asNumber? = none) : Faithful t := by
  refine ⟨fun hk => absurd hk hstring, ?_, fun hk => absurd hk hdimension⟩
  intro n hn
  rw [hnumber] at hn
  cases hn

theorem legible_bare {k : Kind} (hk : k ∈ bareKinds) (heof : k ≠ .eof) (l : Location) :
    Legible ⟨k, .none, l, none⟩ := by
  have hkinds : forall k, k ∈ bareKinds ->
      k.faulty = false ∧ k.same string = false ∧ k.same dimension = false := by
    decide
  rcases hkinds k hk with ⟨hsound, hstring, hdimension⟩
  refine ⟨.bare hk, ?_, heof,
    .of_kind (Kind.ne_of_same hstring) (Kind.ne_of_same hdimension) rfl⟩
  rw [Token.isFaulty, hsound]
  rfl

theorem legible_name {k : Kind} (hk : k ∈ nameKinds) {cs : List Char} (hcs : cs ≠ [])
    (hzero : '\x00' ∉ cs) (l : Location) : Legible ⟨k, .text (String.ofList cs), l, none⟩ := by
  have hkinds : forall k, k ∈ nameKinds -> k.faulty = false ∧ k.same .eof = false ∧
      k.same string = false ∧ k.same dimension = false := by
    decide
  rcases hkinds k hk with ⟨hsound, heof, hstring, hdimension⟩
  refine ⟨.name hk hcs hzero, ?_, Kind.ne_of_same heof,
    .of_kind (Kind.ne_of_same hstring) (Kind.ne_of_same hdimension) rfl⟩
  rw [Token.isFaulty, hsound]
  rfl

theorem legible_lone {c : Char} (h : isLone c = true) (l : Location) :
    Legible ⟨delim, .char c, l, none⟩ := by
  have hstring : delim ≠ string := Kind.ne_of_same (by decide)
  have hdimension : delim ≠ dimension := Kind.ne_of_same (by decide)
  exact ⟨.lone h, rfl, Kind.ne_of_same (a := delim) (by decide), .of_kind hstring hdimension rfl⟩

theorem readsBack_bare_iff {k : Kind} (hk : k ∈ bareKinds) (heof : k ≠ .eof) (l : Location)
    (rest : List Char) :
    dialect.ReadsBack ⟨k, .none, l, none⟩ rest ↔ goesOn ⟨k, .none, l, none⟩ rest = false := by
  simp only [bareKinds, List.mem_cons, List.not_mem_nil, or_false] at hk
  rcases hk with rfl | rfl | rfl | rfl | rfl | rfl | rfl | rfl | rfl | rfl | rfl | rfl | rfl
  · exact readsBack_blank_iff l rest
  · exact iff_of_true (readsBack_punctuation (c := ';') l rfl (by decide) rest) rfl
  · exact iff_of_true (readsBack_punctuation (c := ':') l rfl (by decide) rest) rfl
  · exact iff_of_true (readsBack_punctuation (c := ',') l rfl (by decide) rest) rfl
  · exact iff_of_true (readsBack_punctuation (c := '(') l rfl (by decide) rest) rfl
  · exact iff_of_true (readsBack_punctuation (c := ')') l rfl (by decide) rest) rfl
  · exact iff_of_true (readsBack_punctuation (c := '[') l rfl (by decide) rest) rfl
  · exact iff_of_true (readsBack_punctuation (c := ']') l rfl (by decide) rest) rfl
  · exact iff_of_true (readsBack_punctuation (c := '\x7b') l rfl (by decide) rest) rfl
  · exact iff_of_true (readsBack_punctuation (c := '\x7d') l rfl (by decide) rest) rfl
  · exact iff_of_true (readsBack_cdo l rest) rfl
  · exact iff_of_true (readsBack_cdc l rest) rfl
  · exact absurd rfl heof

theorem readsBack_name_iff {k : Kind} (hk : k ∈ nameKinds) {cs : List Char} (hcs : cs ≠ [])
    (h : '\x00' ∉ cs) (l : Location) (rest : List Char) :
    dialect.ReadsBack ⟨k, .text (String.ofList cs), l, none⟩ rest ↔
      goesOn ⟨k, .text (String.ofList cs), l, none⟩ rest = false := by
  simp only [nameKinds, List.mem_cons, List.not_mem_nil, or_false] at hk
  rcases hk with rfl | rfl | rfl | rfl
  · rw [readsBack_ident_iff l hcs h]
    show _ ↔ (startsHashName rest || rest.head? == some '(' ||
      startsCdc (writeName (String.ofList cs).toList ++ rest)) = false
    simp [and_assoc]
  · exact readsBack_function_iff l hcs h rest
  · exact readsBack_hash_iff l hcs h rest
  · exact readsBack_atKeyword_iff l hcs h rest

/-- A legible token is read back exactly in front of what does not go on with it. -/
theorem Legible.readsBack_iff {t : Token} (h : Legible t) (rest : List Char) :
    dialect.ReadsBack t rest ↔ goesOn t rest = false := by
  rcases h with ⟨hlexeme, hsound, heof, hfaithful⟩
  cases hlexeme with
  | bare hk => exact readsBack_bare_iff hk heof _ rest
  | name hk hcs hzero => exact readsBack_name_iff hk hcs hzero _ rest
  | enclosed hk hzero =>
      rcases hk with rfl | rfl
      · exact iff_of_true (readsBack_string _ rest) rfl
      · exact iff_of_true (readsBack_url _ hzero rest) rfl
  | lone hc => exact readsBack_lone_iff hc _ rest
  | numeric ht =>
      cases ht with
      | number => exact readsBack_number_iff (hfaithful.number _ rfl) _ rest
      | percentage =>
          exact iff_of_true (readsBack_percentage (hfaithful.number _ rfl) _ rest) rfl
      | @dimension n cs =>
          have hplain := hfaithful.unit rfl _ rfl
          rw [String.toList_ofList] at hplain
          rw [readsBack_dimension_iff (hfaithful.number _ rfl) hplain]
          show _ ↔ (true && goesOnUnit n (String.ofList cs).toList rest) = false
          rw [Bool.true_and, String.toList_ofList]
  | broken => simp [Token.isFaulty] at hsound
  | stray => simp [Token.isFaulty] at hsound
  | badNumber => simp [Token.isFaulty] at hsound

/-!
## Written runs need no preparing
-/

theorem prepared_parts (p : NumeralParts) : Prepared p.text := by
  have hdigits : forall {cs : List Char}, (forall c, c ∈ cs -> c.isDigit = true) ->
      Prepared cs := fun hcs => prepared_of_class (p := Char.isDigit) (by decide) hcs
  have hsign : Prepared p.signText := by
    unfold NumeralParts.signText
    split
    · exact prepared_cons (by decide) prepared_nil
    · exact prepared_nil
  have hfraction : Prepared p.fractionText := by
    unfold NumeralParts.fractionText
    split
    · exact prepared_nil
    · exact prepared_cons (by decide) (hdigits p.isDigit_of_mem_fraction)
  have hexponent : Prepared p.exponentText := by
    unfold NumeralParts.exponentText
    split
    · exact prepared_nil
    · exact prepared_cons (by decide) (prepared_integerText _)
  exact hsign.append ((hdigits p.isDigit_of_mem_whole).append (hfraction.append hexponent))

theorem prepared_printed {n : Number} (h : Printed n) : Prepared n.text.toList := by
  rcases exists_parts h with ⟨p, htext, _⟩
  rw [htext]
  exact prepared_parts p

theorem prepared_bare {k : Kind} (hk : k ∈ bareKinds) :
    Prepared (k.encode (k.raw.getD "")).toList := by
  have hall : forall k, k ∈ bareKinds ->
      (k.encode (k.raw.getD "")).toList.any isReplaced = false := by
    decide
  exact prepared_of_any (hall k hk)

theorem prepared_name {k : Kind} (hk : k ∈ nameKinds) (cs : List Char) :
    Prepared (k.encoder cs) := by
  simp only [nameKinds, List.mem_cons, List.not_mem_nil, or_false] at hk
  rcases hk with rfl | rfl | rfl | rfl
  · exact prepared_writeName cs
  · exact (prepared_writeName cs).append (prepared_cons (by decide) prepared_nil)
  · exact prepared_cons (by decide) (prepared_hashName cs)
  · exact prepared_cons (by decide) (prepared_writeName cs)

theorem Legible.prepared {t : Token} (h : Legible t) : Prepared t.source.toList := by
  rcases h with ⟨hlexeme, hsound, _, hfaithful⟩
  cases hlexeme with
  | bare hk => exact prepared_bare hk
  | @name k cs l hk =>
      show Prepared (k.encode (String.ofList cs)).toList
      rw [toList_encode]
      exact prepared_name hk cs
  | @enclosed k cs l hk hzero =>
      show Prepared (k.encode (String.ofList cs)).toList
      rw [toList_encode]
      rcases hk with rfl | rfl
      · rcases hfaithful.string rfl with ⟨hreturn, hfeed⟩
        simp only [Token.text_eq, Payload.decoded, String.toList_ofList] at hreturn hfeed
        refine prepared_writeQuoted fun c hc => ?_
        simp only [isReplaced, Bool.or_eq_false_iff, beq_eq_false_iff_ne]
        exact ⟨⟨fun heq => hreturn (heq ▸ hc), fun heq => hfeed (heq ▸ hc)⟩,
          fun heq => hzero (heq ▸ hc)⟩
      · exact prepared_writeAddress cs
  | @lone c l hc =>
      show Prepared (delim.encode (String.singleton c)).toList
      simp only [isLone, Bool.not_eq_true', Bool.or_eq_false_iff] at hc
      simp only [Kind.encode, delim, String.toList_ofList,
        String.toList_singleton]
      exact prepared_cons hc.1.1.1.1.1.1.1 prepared_nil
  | numeric ht =>
      cases ht with
      | @number n l =>
          show Prepared (number.encode n.text).toList
          simp only [Kind.encode, number, String.toList_ofList]
          exact prepared_printed (hfaithful.number n rfl)
      | @percentage n l =>
          show Prepared (percentage.encode (n.text ++ "%")).toList
          simp only [Kind.encode, percentage,
            String.toList_ofList, String.toList_append]
          exact (prepared_printed (hfaithful.number n rfl)).append (prepared_of_any (by decide))
      | @dimension n cs l hzero =>
          have hplain := hfaithful.unit rfl _ rfl
          rw [String.toList_ofList, isPlainName_iff] at hplain
          show Prepared (dimension.encode (n.text ++ String.ofList cs)).toList
          simp only [Kind.encode, dimension,
            String.toList_ofList, String.toList_append]
          exact (prepared_printed (hfaithful.number n rfl)).append
            (prepared_of_nameChars hplain.2)
  | broken => simp [Token.isFaulty] at hsound
  | stray => simp [Token.isFaulty] at hsound
  | badNumber => simp [Token.isFaulty] at hsound

/-!
## Runs
-/

section Run

variable {ts : List Token}

theorem prepared_runSource (h : forall t, t ∈ ts -> Legible t) :
    Prepared (Token.runSource ts).toList := by
  induction ts with
  | nil => exact prepared_nil
  | cons t ts ih =>
      rw [Token.runSource_cons, String.toList_append]
      exact (h t List.mem_cons_self).prepared.append
        (ih fun u hu => h u (List.mem_cons_of_mem t hu))

/-- All tokens of a run are read back in their places exactly if they stand apart. -/
theorem readsBackAll_iff (h : forall t, t ∈ ts -> Legible t) :
    dialect.ReadsBackAll ts ↔ standApart ts = true := by
  induction ts with
  | nil => exact iff_of_true trivial rfl
  | cons t ts ih =>
      have hhead := (h t List.mem_cons_self).readsBack_iff (Token.runSource ts).toList
      have htail := ih fun u hu => h u (List.mem_cons_of_mem t hu)
      show dialect.ReadsBack t _ ∧ dialect.ReadsBackAll ts ↔ _
      rw [hhead, htail, standApart, Bool.and_eq_true, Bool.not_eq_true']

theorem tokenize_of_standApart (o : Options) (h : forall t, t ∈ ts -> Legible t)
    (hapart : standApart ts = true) :
    (tokenize o (Token.runSource ts)).map Token.unplaced = ts.map Token.unplaced ++ [.eof] := by
  show (dialect.tokensFrom o .start (prepare (Token.runSource ts).toList)).map _ = _
  rw [prepare_of_prepared (prepared_runSource h)]
  exact ((readsBackAll_iff h).mpr hapart).tokensFrom o .start

end Run

/-!
## Style sheets
-/

theorem runSource_eof (ts : List Token) (l : Location) :
    Token.runSource (ts ++ [Token.eof.placed l]) = Token.runSource ts := by
  have heof : (Token.eof.placed l).source = "" := by
    show Kind.eof.encode "" = ""
    decide
  simp [Token.runSource_append, heof]

theorem standApart_eof {ts : List Token} {l : Location}
    (h : standApart (ts ++ [Token.eof.placed l]) = true) : standApart ts = true := by
  induction ts with
  | nil => rfl
  | cons t ts ih =>
      rw [List.cons_append, standApart, runSource_eof, Bool.and_eq_true] at h
      rw [standApart, h.1, ih h.2]
      rfl

/-- A style sheet whose tokens stand apart when they are written keeps their kinds
and values when the text is cut again. -/
theorem tokenize_runSource_tokenize {s : String}
    (hsound : forall t, t ∈ tokenize {} s -> t.isFaulty = false)
    (hfaithful : forall t, t ∈ tokenize {} s -> Faithful t)
    (hapart : standApart (tokenize {} s) = true) :
    (tokenize {} (Token.runSource (tokenize {} s))).map Token.unplaced =
      (tokenize {} s).map Token.unplaced := by
  rcases tokensFrom_eq_append {} .start (prepare s.toList) with ⟨front, hfree, hfront⟩
  have htokens : tokenize {} s = front ++ [Token.eof.placed _] := hfront
  have hlegible : forall t, t ∈ front -> Legible t := by
    intro t ht
    have hmem : t ∈ tokenize {} s := by
      rw [htokens]
      exact List.mem_append_left _ ht
    refine ⟨?_, hsound t hmem, ?_, hfaithful t hmem⟩
    · rcases lexeme_of_mem_tokenize hmem with hlexeme | ⟨hkeep, _⟩
      · exact hlexeme
      · cases hkeep
    · intro heof
      have hnot := hfree t ht
      rw [Token.isEof, Token.is, heof, Kind.same_refl] at hnot
      cases hnot
  rw [htokens] at hapart ⊢
  rw [runSource_eof, tokenize_of_standApart {} hlegible (standApart_eof hapart), List.map_append]
  rfl

/-- The tokens of `a:-05px "x"/b`, where the number is not written as it stands. -/
def respelled : List Token :=
  [⟨ident, .text "a", ⟨1, 1, 0⟩, none⟩, ⟨colon, .none, ⟨1, 2, 1⟩, none⟩,
    ⟨dimension, .dimension (.integer (-5)) "px", ⟨1, 3, 2⟩, none⟩,
    ⟨whitespace, .none, ⟨1, 8, 7⟩, none⟩, ⟨string, .text "x", ⟨1, 9, 8⟩, none⟩,
    ⟨delim, .char '/', ⟨1, 12, 11⟩, none⟩, ⟨ident, .text "b", ⟨1, 13, 12⟩, none⟩,
    Token.eof.placed ⟨1, 14, 13⟩]

theorem tokenize_runSource_respelled :
    (forall t, t ∈ tokenize {} "a:-05px \"x\"/b" -> t.isFaulty = false) ∧
      (forall t, t ∈ tokenize {} "a:-05px \"x\"/b" -> Faithful t) ∧
      standApart (tokenize {} "a:-05px \"x\"/b") = true ∧
      (tokenize {} (Token.runSource (tokenize {} "a:-05px \"x\"/b"))).map Token.unplaced =
        (tokenize {} "a:-05px \"x\"/b").map Token.unplaced := by
  have htokens : tokenize {} "a:-05px \"x\"/b" = respelled := by
    show dialect.tokensFrom {} .start
      ['a', ':', '-', '0', '5', 'p', 'x', ' ', '"', 'x', '"', '/', 'b'] = respelled
    with_unfolding_all rfl
  have hsound : forall t, t ∈ tokenize {} "a:-05px \"x\"/b" -> t.isFaulty = false := by
    rw [htokens]
    decide
  have hfaithful : forall t, t ∈ tokenize {} "a:-05px \"x\"/b" -> Faithful t := by
    rw [htokens]
    intro t ht
    simp only [respelled, List.mem_cons, List.not_mem_nil, or_false] at ht
    have hlone : forall t : Token, t.is string = false -> t.is dimension = false ->
        t.asNumber? = none -> Faithful t := fun t hstring hdimension =>
      .of_kind (Kind.ne_of_same hstring) (Kind.ne_of_same hdimension)
    rcases ht with rfl | rfl | rfl | rfl | rfl | rfl | rfl | rfl
    · exact hlone _ (by decide) (by decide) rfl
    · exact hlone _ (by decide) (by decide) rfl
    · refine ⟨fun hk => absurd hk (Kind.ne_of_same (by decide)), ?_, ?_⟩
      · rintro n ⟨⟩
        exact trivial
      · rintro - unit ⟨⟩
        decide
    · exact hlone _ (by decide) (by decide) rfl
    · refine ⟨fun _ => by decide, ?_, fun hk => absurd hk (Kind.ne_of_same (by decide))⟩
      rintro n ⟨⟩
    · exact hlone _ (by decide) (by decide) rfl
    · exact hlone _ (by decide) (by decide) rfl
    · exact hlone _ (by decide) (by decide) rfl
  have hapart : standApart (tokenize {} "a:-05px \"x\"/b") = true := by
    rw [htokens]
    rfl
  exact ⟨hsound, hfaithful, hapart, tokenize_runSource_tokenize hsound hfaithful hapart⟩

/-- A comment that held two names apart, a sign that held two numbers apart, a unit with
a blank, a number without bounds, and a string with a carriage return. -/
def misread : List String := ["a/**/b", "1+2", "1a\\ b", "1e999", "\"\\d \""]

theorem tokenize_runSource_misread :
    (forall s, s ∈ misread -> (tokenize {} s).all (fun t => !t.isFaulty) = true) ∧
      forall s, s ∈ misread ->
        (tokenize {} (Token.runSource (tokenize {} s))).map Token.unplaced ≠
          (tokenize {} s).map Token.unplaced := by
  have hkinds : forall {s : String},
      (tokenize {} (Token.runSource (tokenize {} s))).map (fun t => t.is number) ≠
        (tokenize {} s).map (fun t => t.is number) ->
      (tokenize {} (Token.runSource (tokenize {} s))).map Token.unplaced ≠
        (tokenize {} s).map Token.unplaced := by
    intro s hnumbers h
    apply hnumbers
    have hkind : (fun t : Token => t.is number) = (fun t => t.is number) ∘ Token.unplaced := by
      funext t
      simp [Token.is, Token.unplaced]
    rw [hkind, ← List.map_map, ← List.map_map, h]
  constructor
  · intro s hs
    simp only [misread, List.mem_cons, List.not_mem_nil, or_false] at hs
    rcases hs with rfl | rfl | rfl | rfl | rfl <;> decide +kernel
  · intro s hs
    apply hkinds
    simp only [misread, List.mem_cons, List.not_mem_nil, or_false] at hs
    rcases hs with rfl | rfl | rfl | rfl | rfl <;> decide +kernel

end Css
end StyleTokens
