import StyleTokens.Proofs.Css.ReadBack.Run

/-!
# Which strings are read back

A string that was cut from a style sheet may hold any character that an escape names.
It is written with escapes for quotes, backslashes and line feeds, and with all other
characters as they are.  A carriage return or a form feed is then a line end, and ends
the string when it is cut again; every other string comes back as it was.
-/

namespace StyleTokens
namespace Css

open Encoding

/-- Does a written string end here, because preparing makes a line feed of the character? -/
def breaksString (c : Char) : Bool := c == '\r' || c == '\x0C'

theorem breaksString_iff {c : Char} : breaksString c = true ↔ c = '\r' ∨ c = '\x0C' := by
  simp [breaksString]

theorem prepare_of_breaksString {c : Char} (h : breaksString c = true) (cs : List Char) :
    exists ds, prepare (c :: cs) = '\n' :: ds := by
  rcases breaksString_iff.mp h with rfl | rfl
  · rw [prepare.eq_def]
    split
    · rename_i heq
      cases heq
    · exact ⟨_, rfl⟩
    · rename_i heq
      cases heq
      exact ⟨_, rfl⟩
  · exact ⟨_, rfl⟩

theorem readString_cut (cs rest : List Char) :
    readString '"' (cs.flatMap quotedChar ++ '\n' :: rest) =
      ⟨cs, some .newlineInString, '\n' :: rest⟩ := by
  induction cs with
  | nil =>
      rw [List.flatMap_nil, List.nil_append, readString.eq_def]
      exact if_pos rfl
  | cons c cs ih =>
      rw [List.flatMap_cons, List.append_assoc, readString_quotedChar, ih]
      rfl

/-- A written string is cut at the first character in it that ends it. -/
theorem first?_writeQuoted_cut (o : Options) {before : List Char} (hbefore : Prepared before)
    {c : Char} (hc : breaksString c = true) (behind : List Char) :
    dialect.first? o (String.ofList (writeQuoted (before ++ c :: behind))) =
      some ((Token.ofText badString before).withError LexError.newlineInString.message) := by
  rcases prepare_of_breaksString hc (behind.flatMap quotedChar ++ ['"']) with ⟨rest, hrest⟩
  have hquoted : quotedChar c = [c] := by
    rcases breaksString_iff.mp hc with rfl | rfl <;> rfl
  have hfront : Prepared ('"' :: before.flatMap quotedChar) :=
    prepared_cons (by decide) (prepared_flatMap fun d hd => prepared_quotedChar (hbefore d hd))
  have hprepare : prepare (writeQuoted (before ++ c :: behind)) =
      '"' :: (before.flatMap quotedChar ++ '\n' :: rest) := by
    have hshape : writeQuoted (before ++ c :: behind) =
        ('"' :: before.flatMap quotedChar) ++ c :: (behind.flatMap quotedChar ++ ['"']) := by
      simp [writeQuoted, hquoted]
    rw [hshape, prepare_append_of_prepared hfront, hrest, List.cons_append]
  have hpass : (dialect.pass o '"' (before.flatMap quotedChar ++ '\n' :: rest)).parts =
      ([(Token.ofText badString before).withError LexError.newlineInString.message],
        '\n' :: rest) := by
    rw [pass_of_claims (s := stringScanner) (by simp [scanners]) o rfl]
    show ([(readQuoted _).1], (readQuoted _).2) = _
    simp only [readQuoted, readString_cut]
  have hinput : dialect.prepare (String.ofList (writeQuoted (before ++ c :: behind))).toList =
      '"' :: (before.flatMap quotedChar ++ '\n' :: rest) := by
    rw [String.toList_ofList]
    exact hprepare
  exact Dialect.first?_of_parts hinput hpass

theorem Emitted.of_string {t : Token} (h : Emitted t) (his : t.is string = true) :
    exists cs l, t = ⟨string, .text (String.ofList cs), l, none⟩ ∧ '\x00' ∉ cs := by
  have hkind : t.kind = string := h.kind_of_is (by simp [contentKinds]) his
  have hdecoded : t.kind ∈ decodedKinds := by
    rw [hkind]
    simp [decodedKinds]
  rcases h.of_decoded hdecoded with ⟨cs, l, ht, hzero, _⟩
  rw [hkind] at ht
  exact ⟨cs, l, ht, hzero⟩

theorem legible_string {cs : List Char} {l : Location} (hzero : '\x00' ∉ cs)
    (hreturn : '\r' ∉ cs) (hfeed : '\x0C' ∉ cs) :
    Legible ⟨string, .text (String.ofList cs), l, none⟩ := by
  have heof : string ≠ .eof := Kind.ne_of_same (by decide)
  have hdimension : string ≠ dimension := Kind.ne_of_same (by decide)
  refine ⟨.enclosed (Or.inl rfl) hzero, rfl, heof, ⟨fun _ => ?_, ?_, fun hk => ?_⟩⟩
  · rw [Token.text_eq]
    show '\r' ∉ (String.ofList cs).toList ∧ '\x0C' ∉ (String.ofList cs).toList
    rw [String.toList_ofList]
    exact ⟨hreturn, hfeed⟩
  · intro n hn
    cases hn
  · exact absurd hk hdimension

theorem tokenize_source_ne_of_breaksString (o : Options) {cs : List Char} (hzero : '\x00' ∉ cs)
    {c : Char} (hmem : c ∈ cs) (hc : breaksString c = true) (l : Location) (rest : List Token) :
    (tokenize o (Token.mk string (.text (String.ofList cs)) l none).source).map Token.unplaced ≠
      Token.ofText string cs :: rest := by
  intro h
  -- Preparing only leaves the part in front of the first such character as it is.
  cases hfind : cs.find? breaksString with
  | none => exact List.find?_eq_none.mp hfind c hmem hc
  | some d =>
      rcases List.find?_eq_some_iff_append.mp hfind with ⟨hd, before, behind, rfl, hfirst⟩
      have hbefore : Prepared before := by
        intro e he
        have hnot : breaksString e = false := by simpa using hfirst e he
        have hne : e ≠ '\x00' := fun heq => hzero (List.mem_append_left _ (heq ▸ he))
        simpa [isReplaced, breaksString, hne] using hnot
      have hsource : (Token.mk string (.text (String.ofList (before ++ d :: behind))) l
          none).source = String.ofList (writeQuoted (before ++ d :: behind)) := by
        rw [← String.toList_inj, String.toList_ofList]
        exact toList_encode string _
      have hcut := first?_writeQuoted_cut o hbefore hd behind
      have hhead := congrArg List.head? h
      rw [hsource, List.head?_map] at hhead
      have hkinds : badString = string :=
        congrArg Token.kind (Option.some.inj (hcut.symm.trans hhead))
      exact absurd hkinds (Kind.ne_of_same (by decide))

/-- A string that was cut from a style sheet is read back as it is, alone, exactly if
there is no carriage return and no form feed in it. -/
theorem tokenize_source_of_string_iff {o : Options} {s : String} {t : Token}
    (ht : t ∈ tokenize o s) (hstring : t.is string = true) (o' : Options) :
    (tokenize o' t.source).map Token.unplaced = [t.unplaced, .eof] ↔
      '\r' ∉ t.text.toList ∧ '\x0C' ∉ t.text.toList := by
  rcases Emitted.of_string ⟨o, s, ht⟩ hstring with ⟨cs, l, rfl, hzero⟩
  have htext : (Token.mk string (.text (String.ofList cs)) l none).text.toList = cs := by
    rw [Token.text_eq]
    exact String.toList_ofList
  rw [htext]
  constructor
  · intro h
    constructor
    · intro hreturn
      exact tokenize_source_ne_of_breaksString o' hzero hreturn rfl l [.eof] h
    · intro hfeed
      exact tokenize_source_ne_of_breaksString o' hzero hfeed rfl l [.eof] h
  · rintro ⟨hreturn, hfeed⟩
    have hlegible : forall t, t ∈ [Token.mk string (.text (String.ofList cs)) l none] ->
        Legible t := by
      intro t ht
      rw [List.mem_singleton.mp ht]
      exact legible_string hzero hreturn hfeed
    have hback := tokenize_of_standApart o' hlegible rfl
    rwa [Token.runSource_singleton] at hback

def escapedMarks : Token := ⟨string, .text "\n\"\\\uFFFD\t", ⟨1, 1, 0⟩, none⟩

theorem tokenize_source_escapedMarks :
    escapedMarks ∈ tokenize {} "'\\a \\22 \\5c \\0 \\9 '" ∧ escapedMarks.is string = true ∧
      ((tokenize {} escapedMarks.source).map Token.unplaced = [escapedMarks.unplaced, .eof] ↔
        '\r' ∉ escapedMarks.text.toList ∧ '\x0C' ∉ escapedMarks.text.toList) := by
  have htokens : tokenize {} "'\\a \\22 \\5c \\0 \\9 '" =
      [escapedMarks, Token.eof.placed ⟨1, 20, 19⟩] := by
    show dialect.tokensFrom {} .start
      ['\x27', '\\', 'a', ' ', '\\', '2', '2', ' ', '\\', '5', 'c', ' ', '\\', '0', ' ',
        '\\', '9', ' ', '\x27'] = _
    with_unfolding_all rfl
  have hmem : escapedMarks ∈ tokenize {} "'\\a \\22 \\5c \\0 \\9 '" := by
    rw [htokens]
    exact List.mem_cons_self
  exact ⟨hmem, rfl, tokenize_source_of_string_iff hmem rfl {}⟩

def escapedReturn : Token := ⟨string, .text "\r", ⟨1, 1, 0⟩, none⟩

theorem tokenize_source_escapedReturn :
    escapedReturn ∈ tokenize {} "\"\\d \"" ∧ escapedReturn.is string = true ∧
      escapedReturn.isFaulty = false ∧
      (tokenize {} escapedReturn.source).map Token.unplaced ≠ [escapedReturn.unplaced, .eof] := by
  have htokens : tokenize {} "\"\\d \"" = [escapedReturn, Token.eof.placed ⟨1, 6, 5⟩] := by
    with_unfolding_all rfl
  have hagain : (tokenize {} escapedReturn.source).length = 4 := by decide +kernel
  refine ⟨?_, rfl, rfl, ?_⟩
  · rw [htokens]
    exact List.mem_cons_self
  · intro h
    have hlength := congrArg List.length h
    rw [List.length_map, hagain] at hlength
    cases hlength

end Css
end StyleTokens
