import StyleTokens.Proofs.Structure.Metered

/-!
# Where reading ends

No reader passes the end of the text: what it leaves goes on to the same end.  The
readers of whole lists and blocks go on until nothing is in front of this end, so they
leave exactly what follows from it on.  A rule is left without its end only there, and
then it is the last one.
-/

namespace StyleTokens

/-!
## The first end of the text
-/

/-- Both queues go on to the same end of the text. -/
def SameEnd (ts us : List Token) : Prop :=
  Queue.onward Token.isEof ts = Queue.onward Token.isEof us

namespace SameEnd

theorem refl (ts : List Token) : SameEnd ts ts := rfl

theorem trans {ts us vs : List Token} (h : SameEnd ts us) (h' : SameEnd us vs) :
    SameEnd ts vs := Eq.trans h h'

theorem tail {t : Token} (ts : List Token) (h : t.isEof = false) : SameEnd ts (t :: ts) :=
  (Queue.onward_cons_of_neg ts h).symm

theorem behind {ts us : List Token} {t : Token} (h : SameEnd ts us) (ht : t.isEof = false) :
    SameEnd ts (t :: us) := h.trans (tail us ht)

end SameEnd

theorem sameEnd_skipNested (inside : Nat) (ts : List Token) :
    SameEnd (skipNested inside ts) ts := by
  fun_induction skipNested inside ts with
  | case1 => exact .refl []
  | case2 inside t ts heof => exact .refl (t :: ts)
  | case3 inside t ts heof _ ih => exact ih.behind (by simpa using heof)
  | case4 t ts heof _ _ => exact .tail ts (by simpa using heof)
  | case5 t ts heof _ _ inside ih => exact ih.behind (by simpa using heof)
  | case6 inside t ts heof _ _ ih => exact ih.behind (by simpa using heof)

theorem sameEnd_closedBy (c : Construct) (l : Location) (p : Parsed (List Token)) :
    SameEnd (p.closedBy c l).rest p.rest := by
  unfold Parsed.closedBy
  split
  · rename_i hrest
    rw [hrest]
    exact .refl []
  · rename_i t rest hrest
    rw [hrest]
    split
    · exact .refl (t :: rest)
    · rename_i heof
      exact .tail rest (by simpa using heof)

theorem sameEnd_parseContents_of_run {n : Nesting} {c : Construct} {ts : List Token}
    (h : SameEnd (parseRun n.deeper c.ends ts).rest ts) (l : Location) :
    SameEnd (parseContents n c l ts).rest ts := by
  cases hfull : n.isFull with
  | true =>
      rw [parseContents_of_full hfull]
      exact sameEnd_skipNested 0 ts
  | false =>
      rw [parseContents_of_not_full hfull]
      exact (sameEnd_closedBy c l _).trans h

theorem sameEnd_parseRun (n : Nesting) (stop : Predicate) (heof : StopsAtEof stop)
    (ts : List Token) : SameEnd (parseRun n stop ts).rest ts := by
  induction n, stop, ts using readRun_induction with
  | nil n stop =>
      rw [parseRun_of_standsAt (standsAt_nil stop)]
      exact .refl []
  | stopped n stop t ts ht =>
      rw [parseRun_of_standsAt (standsAt_cons ts ht)]
      exact .refl (t :: ts)
  | single n stop t ts ht ho ih =>
      rw [parseRun_cons ts ht, readComponent_of_opens_none n ts ho]
      exact (ih heof).behind (heof.not_isEof ht)
  | nested n stop t ts c ht ho ihinside ih =>
      have hinside := sameEnd_parseContents_of_run (ihinside (stopsAtEof_ends c)) t.location
      rw [parseRun_cons ts ht, readComponent_eq_parseContents n ts ho]
      exact ((ih heof).trans hinside).behind (heof.not_isEof ht)

theorem sameEnd_parseContents (n : Nesting) (c : Construct) (l : Location) (ts : List Token) :
    SameEnd (parseContents n c l ts).rest ts :=
  sameEnd_parseContents_of_run (sameEnd_parseRun n.deeper c.ends (stopsAtEof_ends c) ts) l

/-!
## Preludes
-/

namespace Prelude

theorem sameEnd_readEnd (n : Nesting) (semicolonEnds : Bool) (values : List Token)
    (errors : List StructureError) (input : List Token) :
    SameEnd (readEnd n semicolonEnds values errors input).rest input := by
  cases input with
  | nil => exact .refl []
  | cons t ts =>
      cases heof : t.isEof with
      | true =>
          rw [readEnd, if_pos heof]
          exact .refl (t :: ts)
      | false =>
          simp only [readEnd, heof, Bool.false_eq_true, if_false]
          split
          · exact .tail ts heof
          · split
            · exact (sameEnd_parseContents n _ t.location ts).behind heof
            · split
              · exact .tail ts heof
              · exact .tail ts heof

theorem sameEnd_read (n : Nesting) (semicolonEnds : Bool) (input : List Token) :
    SameEnd (read n semicolonEnds input).rest input :=
  (sameEnd_readEnd n semicolonEnds _ _ _).trans
    (sameEnd_parseRun n (ends semicolonEnds) (stopsAtEof_ends semicolonEnds) input)

theorem read_ending (n : Nesting) (semicolonEnds : Bool) (input : List Token) :
    (exists b, (read n semicolonEnds input).ending = .block b) ∨
      (semicolonEnds = true ∧ (read n semicolonEnds input).ending = .semicolon) ∨
      StandsAt Token.isEof (read n semicolonEnds input).rest := by
  have hstands := standsAt_parseRun_rest n (ends semicolonEnds) input
  rw [read_eq_readEnd]
  cases hrest : (parseRun n (ends semicolonEnds) input).rest with
  | nil => exact Or.inr (Or.inr (standsAt_nil Token.isEof))
  | cons t ts =>
      have hends : ends semicolonEnds t = true := hstands t (by rw [hrest]; rfl)
      cases heof : t.isEof with
      | true =>
          rw [readEnd, if_pos heof]
          exact Or.inr (Or.inr (standsAt_cons ts heof))
      | false =>
          simp only [readEnd, heof, Bool.false_eq_true, if_false]
          split
          · rename_i hsemicolon
            exact Or.inr (Or.inl ⟨(Bool.and_eq_true_iff.mp hsemicolon).1, rfl⟩)
          · rename_i hsemicolon
            split
            · exact Or.inl ⟨_, rfl⟩
            · rename_i hbrace
              -- the run stopped here, so the token is a block that was read before
              cases hblock : t.asBlock? with
              | some b => exact Or.inl ⟨b, rfl⟩
              | none => simp [ends, heof, hsemicolon, hbrace, Token.isBraceBlock, hblock] at hends

end Prelude

/-!
## Rules
-/

namespace Rule

theorem sameEnd_read (n : Nesting) {t : Token} (ts : List Token) (h : t.isEof = false) :
    SameEnd (read n t ts).rest (t :: ts) := by
  cases hat : t.is Css.atKeyword with
  | true =>
      rw [read_of_atKeyword n hat, readNamed_rest]
      exact (Prelude.sameEnd_read n true ts).behind h
  | false =>
      rw [read_of_not_atKeyword n hat, readQualified_rest]
      exact Prelude.sameEnd_read n false (t :: ts)

theorem readAll_of_standsAt (n : Nesting) {ts : List Token} (h : StandsAt Token.isEof ts) :
    readAll n ts = ⟨[], [], ts⟩ := by
  cases ts with
  | nil => rw [readAll]
  | cons t ts => exact readAll_of_isEof n ts (h t rfl)

theorem readAll_rest (n : Nesting) (ts : List Token) :
    (readAll n ts).rest = Queue.onward Token.isEof ts := by
  induction ts using readAll.induct n with
  | case1 =>
      rw [readAll]
      rfl
  | case2 t ts heof =>
      rw [readAll_of_isEof n ts heof, Queue.onward_of_standsAt (standsAt_cons ts heof)]
  | case3 t ts heof hskip ih =>
      have ht : t.isEof = false := by simpa using heof
      rw [readAll_of_isSkipped n ts ht hskip, ih, Queue.onward_cons_of_neg ts ht]
  | case4 t ts heof hskip first ih =>
      have ht : t.isEof = false := by simpa using heof
      rw [readAll_cons n ts ht (by simpa using hskip)]
      exact ih.trans (sameEnd_read n ts ht)

theorem ofPrelude_errors_ne_nil {l : Location} {found : Prelude}
    (h : (ofPrelude l found).value.isUnknown = true) : (ofPrelude l found).errors ≠ [] := by
  unfold ofPrelude at h ⊢
  split at h
  · cases h
  · simp

theorem ofNamedPrelude_errors_ne_nil {name : String} {l : Location} {found : Prelude}
    (h : (ofNamedPrelude name l found).value.isUnknown = true) :
    (ofNamedPrelude name l found).errors ≠ [] := by
  unfold ofNamedPrelude at h ⊢
  split at h
  · cases h
  · cases h
  · simp

theorem read_of_isUnknown {n : Nesting} {t : Token} {ts : List Token}
    (h : (read n t ts).value.isUnknown = true) :
    (read n t ts).errors ≠ [] ∧ StandsAt Token.isEof (read n t ts).rest := by
  cases hat : t.is Css.atKeyword with
  | true =>
      rw [read_of_atKeyword n hat, readNamed_eq_ofNamedPrelude] at h ⊢
      refine ⟨ofNamedPrelude_errors_ne_nil h, ?_⟩
      rw [← readNamed_eq_ofNamedPrelude, readNamed_rest]
      rcases Prelude.read_ending n true ts with ⟨b, hblock⟩ | ⟨_, hsemicolon⟩ | hstands
      · rw [ofNamedPrelude, hblock] at h
        cases h
      · rw [ofNamedPrelude, hsemicolon] at h
        cases h
      · exact hstands
  | false =>
      rw [read_of_not_atKeyword n hat, readQualified_eq_ofPrelude] at h ⊢
      refine ⟨ofPrelude_errors_ne_nil h, ?_⟩
      rw [← readQualified_eq_ofPrelude, readQualified_rest]
      rcases Prelude.read_ending n false (t :: ts) with ⟨b, hblock⟩ | ⟨hfalse, _⟩ | hstands
      · rw [ofPrelude, hblock] at h
        cases h
      · cases hfalse
      · exact hstands

/-- Only the last rule is without its end, and there is an error if it is. -/
structure UnknownLast (rules : List Rule) (errors : List StructureError) : Prop where
  known : forall r, r ∈ rules.dropLast -> r.isUnknown = false
  reported : forall r, r ∈ rules -> r.isUnknown = true -> errors ≠ []

namespace UnknownLast

theorem nil (errors : List StructureError) : UnknownLast [] errors where
  known := by
    intro r hr
    cases hr
  reported := by
    intro r hr
    cases hr

theorem behind {rules : List Rule} {errors : List StructureError}
    (h : UnknownLast rules errors) (more : List StructureError) :
    UnknownLast rules (more ++ errors) where
  known := h.known
  reported := by
    intro r hr hunknown hnil
    exact h.reported r hr hunknown (List.append_eq_nil_iff.mp hnil).2

theorem cons {r : Rule} {rules : List Rule} {errors others : List StructureError}
    (h : UnknownLast rules others)
    (hr : r.isUnknown = true -> errors ≠ [] ∧ rules = []) :
    UnknownLast (r :: rules) (errors ++ others) where
  known := by
    intro u hu
    cases rules with
    | nil => cases hu
    | cons v rules =>
        rcases List.mem_cons.mp hu with rfl | hu
        · rw [Bool.eq_false_iff]
          intro hunknown
          cases (hr hunknown).2
        · exact h.known u hu
  reported := by
    intro u hu hunknown
    rcases List.mem_cons.mp hu with rfl | hu
    · intro hnil
      exact (hr hunknown).1 (List.append_eq_nil_iff.mp hnil).1
    · exact (h.behind errors).reported u hu hunknown

end UnknownLast

theorem unknownLast_readAll (n : Nesting) (ts : List Token) :
    UnknownLast (readAll n ts).value (readAll n ts).errors := by
  induction ts using readAll.induct n with
  | case1 =>
      rw [readAll]
      exact .nil []
  | case2 t ts heof =>
      rw [readAll_of_isEof n ts heof]
      exact .nil []
  | case3 t ts heof hskip ih =>
      rw [readAll_of_isSkipped n ts (by simpa using heof) hskip]
      exact ih
  | case4 t ts heof hskip first ih =>
      rw [readAll_cons n ts (by simpa using heof) (by simpa using hskip)]
      refine .cons ih fun hunknown => ?_
      obtain ⟨herrors, hstands⟩ := read_of_isUnknown hunknown
      refine ⟨herrors, ?_⟩
      rw [readAll_of_standsAt n hstands]

end Rule

/-!
## Style blocks
-/

namespace StyleBlock

theorem sameEnd_afterItem (ts : List Token) : SameEnd (afterItem ts) ts := by
  cases ts with
  | nil => exact .refl []
  | cons t ts =>
      cases hsemicolon : t.is Css.semicolon with
      | true =>
          rw [afterItem_of_semicolon hsemicolon]
          exact .tail ts (not_isEof_of_is hsemicolon (by decide))
      | false =>
          rw [afterItem_of_not_semicolon hsemicolon]
          exact .refl (t :: ts)

theorem sameEnd_afterItem_readRun (n : Nesting) (input : List Token) :
    SameEnd (afterItem (readRun n endsItem input).rest) input :=
  (sameEnd_afterItem _).trans (sameEnd_parseRun n endsItem stopsAtEof_endsItem input)

theorem sameEnd_readItem (n : Nesting) {t : Token} (ts : List Token) (h : t.isEof = false) :
    SameEnd (readItem n t ts).rest (t :: ts) := by
  unfold readItem
  split
  · exact Rule.sameEnd_read n ts h
  · split
    · exact sameEnd_afterItem_readRun n (t :: ts)
    · split
      · exact Rule.sameEnd_read n ts h
      · exact sameEnd_afterItem_readRun n (t :: ts)

theorem read_rest (n : Nesting) (ts : List Token) :
    (read n ts).rest = Queue.onward Token.isEof ts := by
  induction ts using read.induct n with
  | case1 =>
      rw [read]
      rfl
  | case2 t ts heof =>
      rw [read, if_pos heof, Queue.onward_of_standsAt (standsAt_cons ts heof)]
  | case3 t ts heof hskip ih =>
      have ht : t.isEof = false := by simpa using heof
      rw [read_of_isSkipped n ts ht hskip, ih, Queue.onward_cons_of_neg ts ht]
  | case4 t ts heof hskip first ih =>
      have ht : t.isEof = false := by simpa using heof
      rw [read_cons n ts ht (by simpa using hskip)]
      exact ih.trans (sameEnd_readItem n ts ht)

theorem read_of_standsAt (n : Nesting) {ts : List Token} (h : StandsAt Token.isEof ts) :
    read n ts = ⟨empty, [], ts⟩ := by
  cases ts with
  | nil => rw [read]
  | cons t ts => rw [read, if_pos (h t rfl)]

theorem readItem_of_isUnknown {n : Nesting} {t : Token} {ts : List Token} {r : Rule}
    (h : (readItem n t ts).value = .rule r) (hr : r.isUnknown = true) :
    (readItem n t ts).errors ≠ [] ∧ StandsAt Token.isEof (readItem n t ts).rest := by
  have hrule : readItem n t ts = readRule n t ts := by
    unfold readItem at h ⊢
    split
    · rfl
    · rename_i hat
      rw [if_neg hat] at h
      split
      · rename_i hident
        rw [if_pos hident, readDeclaration] at h
        split at h
        · cases h
        · cases h
      · rename_i hident
        rw [if_neg hident] at h
        split
        · rfl
        · rename_i hmark
          rw [if_neg hmark] at h
          cases h
  rw [hrule] at h ⊢
  rcases Item.rule.inj h with rfl
  exact Rule.read_of_isUnknown hr

theorem unknownLast_read (n : Nesting) (ts : List Token) :
    Rule.UnknownLast (read n ts).value.rules (read n ts).errors := by
  induction ts using read.induct n with
  | case1 =>
      rw [read]
      exact .nil []
  | case2 t ts heof =>
      rw [read, if_pos heof]
      exact .nil []
  | case3 t ts heof hskip ih =>
      rw [read_of_isSkipped n ts (by simpa using heof) hskip]
      exact ih
  | case4 t ts heof hskip first ih =>
      rw [read_cons n ts (by simpa using heof) (by simpa using hskip)]
      cases hitem : (readItem n t ts).value with
      | declaration d => exact ih.behind _
      | nothing => exact ih.behind _
      | rule r =>
          refine .cons ih fun hunknown => ?_
          obtain ⟨herrors, hstands⟩ := readItem_of_isUnknown hitem hunknown
          refine ⟨herrors, ?_⟩
          rw [read_of_standsAt n hstands]
          rfl

end StyleBlock

/-!
## Whole queues
-/

/-- A reader with a meter ends with the first end of the text in front of it, gives the
value that is read with the nesting, and its meter counts what it counted before.  From
within the limit it was never beyond the limit. -/
structure EndsAtEof (n : Nesting) (input : List Token) (x : Metered (Parsed α))
    (p : Parsed α) : Prop where
  value : (x.run (.start n)).1 = p
  rest : p.rest = Queue.onward Token.isEof input
  nesting : (x.run (.start n)).2.nesting = n
  highest_le : n.depth ≤ n.limit -> (x.run (.start n)).2.highest ≤ n.limit

theorem Metered.Reads.endsAtEof {n : Nesting} {input : List Token} {x : Metered (Parsed α)}
    {p : Parsed α} (h : Metered.Reads n x p)
    (hrest : p.rest = Queue.onward Token.isEof input) : EndsAtEof n input x p := by
  obtain ⟨hvalue, hrestored⟩ := h (.start n) rfl
  refine ⟨hvalue, hrest, hrestored.nesting, fun hn => ?_⟩
  have hhighest : (x (.start n)).2.highest ≤ max n.depth n.limit := hrestored.highest_le
  rw [Nat.max_eq_right hn] at hhighest
  exact hhighest

/-- Rules and items are read up to the first end of the text whatever the tokens are, the
count of open constructs comes back without having passed the limit, and only the last
rule can be without its end, which is then reported. -/
theorem read_endsAtEof (n : Nesting) (ts : List Token) :
    EndsAtEof n ts (Rule.meterAll ts) (Rule.readAll n ts) ∧
      EndsAtEof n ts (StyleBlock.meter ts) (StyleBlock.read n ts) ∧
      Rule.UnknownLast (Rule.readAll n ts).value (Rule.readAll n ts).errors ∧
      Rule.UnknownLast (StyleBlock.read n ts).value.rules (StyleBlock.read n ts).errors :=
  ⟨(Rule.reads_meterAll n ts).endsAtEof (Rule.readAll_rest n ts),
    (StyleBlock.reads_meter n ts).endsAtEof (StyleBlock.read_rest n ts),
    Rule.unknownLast_readAll n ts, StyleBlock.unknownLast_read n ts⟩

def unclosed : List Token :=
  [.bare Css.openBrace, .bare Css.openParen, .bare Css.openBracket, .bare Css.semicolon,
    .eof, .bare Css.closeParen, .eof]

/-- One construct is open already and two may be. -/
theorem read_endsAtEof_unclosed :
    (Nesting.mk 2 1).depth ≤ (Nesting.mk 2 1).limit ∧
      (Rule.readAll ⟨2, 1⟩ unclosed).rest = unclosed.drop 4 ∧
      (StyleBlock.read ⟨2, 1⟩ unclosed).rest = unclosed.drop 4 ∧
      ((Rule.meterAll unclosed).run (.start ⟨2, 1⟩)).2.nesting = ⟨2, 1⟩ ∧
      ((StyleBlock.meter unclosed).run (.start ⟨2, 1⟩)).2.highest ≤ (Nesting.mk 2 1).limit ∧
      ((Rule.meterAll unclosed).run (.start ⟨2, 1⟩)).2.highest = 2 := by
  have hdepth : (Nesting.mk 2 1).depth ≤ (Nesting.mk 2 1).limit := by decide
  have hhighest : ((Rule.meterAll unclosed).run (.start ⟨2, 1⟩)).2.highest = 2 := by decide +kernel
  obtain ⟨hrules, hblock, -, -⟩ := read_endsAtEof ⟨2, 1⟩ unclosed
  exact ⟨hdepth, hrules.rest, hblock.rest, hrules.nesting, hblock.highest_le hdepth, hhighest⟩

end StyleTokens
