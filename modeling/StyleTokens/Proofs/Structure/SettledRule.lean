import StyleTokens.Proofs.Structure.Settled

/-!
# Settled rules

A rule that is read without an error ends with its block or its semicolon, and
reads the same whatever follows.  A list of rules that is read without an error
up to the end of the text can therefore be gone on with there.
-/

namespace StyleTokens

/-!
## Preludes
-/

namespace PreludeEnd

def reached : PreludeEnd -> Bool
  | block _ => true
  | semicolon => true
  | eof => false
  | exhausted => false

end PreludeEnd

namespace Prelude

theorem read_eq_readEnd (n : Nesting) (semicolonEnds : Bool) (input : List Token) :
    read n semicolonEnds input =
      readEnd n semicolonEnds (parseRun n (ends semicolonEnds) input).value
        (parseRun n (ends semicolonEnds) input).errors
        (parseRun n (ends semicolonEnds) input).rest := rfl

theorem stopsAtEof_ends (semicolonEnds : Bool) : StopsAtEof (ends semicolonEnds) := by
  intro t ht
  simp [ends, ht]

theorem errors_nil_of_readEnd {n : Nesting} {semicolonEnds : Bool} {values : List Token}
    {errors : List StructureError} {input : List Token}
    (h : (readEnd n semicolonEnds values errors input).errors = []) : errors = [] := by
  unfold readEnd at h
  split at h
  · exact h
  · split at h
    · exact h
    · split at h
      · exact h
      · split at h
        · exact (List.append_eq_nil_iff.mp h).1
        · split at h
          · exact h
          · exact h

theorem block_read_eq_parseContents (n : Nesting) (closing : Kind) (t : Token)
    (ts : List Token) :
    Block.read n closing (t :: ts) =
      ⟨{ opening := t.kind, closing,
         values := (parseContents n (.block t.kind closing) t.location ts).value,
         location := t.location },
        (parseContents n (.block t.kind closing) t.location ts).errors,
        (parseContents n (.block t.kind closing) t.location ts).rest⟩ := rfl

theorem settles_readEnd {n : Nesting} {semicolonEnds : Bool} (values : List Token) {t : Token}
    {ts : List Token} (hend : (readEnd n semicolonEnds values [] (t :: ts)).ending.reached = true)
    (herrors : (readEnd n semicolonEnds values [] (t :: ts)).errors = []) :
    exists taken, taken ++ (readEnd n semicolonEnds values [] (t :: ts)).rest = ts ∧
      EofFree (t :: taken) ∧ forall more,
        readEnd n semicolonEnds values [] (t :: (taken ++ more)) =
          { readEnd n semicolonEnds values [] (t :: ts) with rest := more } := by
  cases heof : t.isEof with
  | true =>
      rw [readEnd, if_pos heof] at hend
      cases hend
  | false =>
      have hfree : EofFree [t] := eofFree_nil.cons heof
      unfold readEnd at hend herrors ⊢
      simp only [heof, Bool.false_eq_true, if_false] at hend herrors ⊢
      by_cases hsemicolon : (semicolonEnds && t.is Css.semicolon) = true
      · simp only [if_pos hsemicolon]
        exact ⟨[], rfl, hfree, fun more => rfl⟩
      · simp only [if_neg hsemicolon] at hend herrors ⊢
        by_cases hbrace : t.is Css.openBrace = true
        · simp only [if_pos hbrace, block_read_eq_parseContents, List.nil_append] at herrors ⊢
          rcases settles_parseContents herrors with ⟨taken, htaken, hfree', hmore⟩
          refine ⟨taken, htaken, hfree'.cons heof, ?_⟩
          intro more
          rw [hmore more]
        · simp only [if_neg hbrace] at hend herrors ⊢
          cases hblock : t.asBlock? with
          | none =>
              rw [hblock] at hend
              cases hend
          | some b => exact ⟨[], rfl, hfree, fun more => rfl⟩

theorem settles_read {n : Nesting} {semicolonEnds : Bool} {input : List Token}
    (hend : (read n semicolonEnds input).ending.reached = true)
    (herrors : (read n semicolonEnds input).errors = []) :
    exists taken, taken ≠ [] ∧ taken ++ (read n semicolonEnds input).rest = input ∧
      EofFree taken ∧ forall more,
        read n semicolonEnds (taken ++ more) =
          { read n semicolonEnds input with rest := more } := by
  have hrun : (parseRun n (ends semicolonEnds) input).errors = [] :=
    errors_nil_of_readEnd herrors
  obtain ⟨taken, htaken, hfree, hmore⟩ :=
    settlesUpTo_parseRun n (ends semicolonEnds) (stopsAtEof_ends semicolonEnds) input hrun
  have hstands := standsAt_parseRun_rest n (ends semicolonEnds) input
  rw [read_eq_readEnd, hrun] at hend herrors ⊢
  cases hrest : (parseRun n (ends semicolonEnds) input).rest with
  | nil =>
      rw [hrest] at hend
      cases hend
  | cons t ts =>
      rw [hrest] at hend herrors hstands htaken
      rcases settles_readEnd _ hend herrors with ⟨taken', htaken', hfree', hmore'⟩
      refine ⟨taken ++ t :: taken', by simp, ?_, hfree.append hfree', ?_⟩
      · rw [List.append_assoc, List.cons_append, htaken', htaken]
      · intro more
        have hread := hmore (t :: (taken' ++ more)) (standsAt_cons _ (hstands t rfl))
        rw [read_eq_readEnd, List.append_assoc, List.cons_append, hread, hrun]
        exact hmore' more

end Prelude

/-!
## Rules
-/

namespace Rule

theorem read_of_atKeyword (n : Nesting) {t : Token} (h : t.is Css.atKeyword = true)
    (ts : List Token) : read n t ts = readNamed n t.text t.location ts := by
  have hpoll : Queue.pollIf (Predicate.ofKind Css.atKeyword) (t :: ts) = (some t, ts) := by
    rw [Queue.pollIf]
    exact if_pos h
  rw [read, if_pos h, readAt, hpoll]
  rfl

theorem read_of_not_atKeyword (n : Nesting) {t : Token} (h : t.is Css.atKeyword = false)
    (ts : List Token) : read n t ts = readQualified n (t :: ts) := by
  rw [read, if_neg (by simp [h])]

theorem prelude_of_readNamed {n : Nesting} {name : String} {l : Location} {ts : List Token}
    (h : (readNamed n name l ts).errors = []) :
    (Prelude.read n true ts).ending.reached = true ∧ (Prelude.read n true ts).errors = [] := by
  simp only [readNamed] at h
  split at h
  · rename_i hend
    exact ⟨by rw [hend]; rfl, h⟩
  · rename_i hend
    exact ⟨by rw [hend]; rfl, h⟩
  · simp at h

theorem prelude_of_readQualified {n : Nesting} {input : List Token}
    (h : (readQualified n input).errors = []) :
    (Prelude.read n false input).ending.reached = true ∧
      (Prelude.read n false input).errors = [] := by
  simp only [readQualified] at h
  split at h
  · rename_i hend
    exact ⟨by rw [hend]; rfl, h⟩
  · simp at h

theorem settles_readNamed {n : Nesting} {name : String} {l : Location} {ts : List Token}
    (h : (readNamed n name l ts).errors = []) : Settles (readNamed n name l) ts := by
  rcases prelude_of_readNamed h with ⟨hend, herrors⟩
  rcases Prelude.settles_read hend herrors with ⟨taken, _, htaken, hfree, hmore⟩
  refine ⟨taken, ?_, hfree, ?_⟩
  · rw [readNamed_rest, htaken]
  · intro more
    simp only [readNamed, hmore more]
    split <;> rfl

theorem settles_readQualified {n : Nesting} {t : Token} {ts : List Token}
    (h : (readQualified n (t :: ts)).errors = []) :
    Settles (fun ts => readQualified n (t :: ts)) ts := by
  rcases prelude_of_readQualified h with ⟨hend, herrors⟩
  rcases Prelude.settles_read hend herrors with ⟨taken, hne, htaken, hfree, hmore⟩
  cases taken with
  | nil => exact absurd rfl hne
  | cons u taken =>
      rcases List.cons.inj htaken with ⟨rfl, htail⟩
      refine ⟨taken, ?_, fun v hv => hfree v (List.mem_cons_of_mem u hv), ?_⟩
      · show taken ++ (readQualified n _).rest = ts
        rw [readQualified_rest]
        exact htail
      · intro more
        have hread := hmore more
        rw [List.cons_append] at hread
        simp only [readQualified, hread]
        split <;> rfl

theorem settles_read {n : Nesting} {t : Token} {ts : List Token}
    (h : (read n t ts).errors = []) : Settles (read n t) ts := by
  cases hat : t.is Css.atKeyword with
  | true =>
      rw [show read n t = readNamed n t.text t.location from
        funext (read_of_atKeyword n hat)] at h ⊢
      exact settles_readNamed h
  | false =>
      rw [show read n t = fun ts => readQualified n (t :: ts) from
        funext (read_of_not_atKeyword n hat)] at h ⊢
      exact settles_readQualified h

/-!
## Lists of rules
-/

theorem readAll_of_isEof (n : Nesting) {t : Token} (ts : List Token) (h : t.isEof = true) :
    readAll n (t :: ts) = ⟨[], [], t :: ts⟩ := by
  rw [readAll, if_pos h]

theorem readAll_of_isSkipped (n : Nesting) {t : Token} (ts : List Token)
    (heof : t.isEof = false) (h : isSkipped t = true) : readAll n (t :: ts) = readAll n ts := by
  rw [readAll, if_neg (by simp [heof]), if_pos h]

theorem readAll_cons (n : Nesting) {t : Token} (ts : List Token) (heof : t.isEof = false)
    (h : isSkipped t = false) :
    readAll n (t :: ts) =
      ⟨(read n t ts).value :: (readAll n (read n t ts).rest).value,
        (read n t ts).errors ++ (readAll n (read n t ts).rest).errors,
        (readAll n (read n t ts).rest).rest⟩ := by
  rw [readAll, if_neg (by simp [heof]), if_neg (by simp [h])]

end Rule

theorem eq_append_of_append_eof {taken rest ts : List Token} {t : Token} (ht : t.isEof = true)
    (hfree : EofFree taken) (h : taken ++ rest = ts ++ [t]) :
    exists others, ts = taken ++ others ∧ rest = others ++ [t] := by
  rcases List.append_eq_append_iff.mp h with ⟨others, hts, hrest⟩ | ⟨others, htaken, hlast⟩
  · exact ⟨others, hts, hrest⟩
  · cases others with
    | nil => exact ⟨[], by simpa using htaken.symm, by simpa using hlast.symm⟩
    | cons u others =>
        rcases List.cons.inj hlast with ⟨rfl, -⟩
        have hmem : t ∈ taken := by simp [htaken]
        rw [hfree t hmem] at ht
        cases ht

namespace Rule

/-- Rules that are read without an error up to the end of the text are followed by
the rules of whatever stands in its place. -/
theorem readAll_append {n : Nesting} {t : Token} (ht : t.isEof = true) {ts : List Token}
    (hfree : EofFree ts) (h : (readAll n (ts ++ [t])).errors = []) (more : List Token) :
    readAll n (ts ++ more) =
      ⟨(readAll n (ts ++ [t])).value ++ (readAll n more).value, (readAll n more).errors,
        (readAll n more).rest⟩ := by
  induction hlen : ts.length using Nat.strongRecOn generalizing ts with
  | ind len ih =>
      cases ts with
      | nil =>
          rw [List.nil_append, List.nil_append, readAll_of_isEof n [] ht]
          rfl
      | cons u ts =>
          have hu : u.isEof = false := hfree u List.mem_cons_self
          have hfree' : EofFree ts := fun v hv => hfree v (List.mem_cons_of_mem u hv)
          rw [List.cons_append] at h ⊢
          rw [List.cons_append]
          cases hskip : isSkipped u with
          | true =>
              rw [readAll_of_isSkipped n _ hu hskip] at h ⊢
              rw [readAll_of_isSkipped n _ hu hskip]
              exact ih ts.length (by rw [← hlen]; exact Nat.lt_succ_self _) hfree' h rfl
          | false =>
              rw [readAll_cons n _ hu hskip] at h ⊢
              rcases List.append_eq_nil_iff.mp h with ⟨hfirst, hothers⟩
              rcases settles_read hfirst with ⟨taken, htaken, htakenfree, hmore⟩
              rcases eq_append_of_append_eof ht htakenfree htaken with ⟨others, rfl, hrest⟩
              rw [hrest] at hothers
              have hlt : others.length < len := by
                rw [← hlen, List.length_cons, List.length_append]
                omega
              have hind := ih others.length hlt
                (fun v hv => hfree' v (List.mem_append_right taken hv)) hothers rfl
              rw [readAll_cons n _ hu hskip, List.append_assoc, hmore, hrest, hind, hfirst]
              rfl

end Rule

end StyleTokens
