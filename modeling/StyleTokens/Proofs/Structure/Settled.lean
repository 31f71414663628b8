import StyleTokens.Proofs.Structure.Run

/-!
# Settled constructs

What is read without an error has found its end.  Reading it took a front of the
input, without the end of the text, and reads the same from this front whatever
follows it.  A run of values has no end of its own; it reads the same wherever a
token that stops it follows.
-/

namespace StyleTokens

/-!
## Fronts
-/

def EofFree (ts : List Token) : Prop :=
  forall t, t ∈ ts -> t.isEof = false

theorem eofFree_nil : EofFree [] := by
  intro t ht
  cases ht

theorem EofFree.cons {t : Token} {ts : List Token} (ht : t.isEof = false) (h : EofFree ts) :
    EofFree (t :: ts) := by
  intro u hu
  rcases List.mem_cons.mp hu with rfl | hu
  · exact ht
  · exact h u hu

theorem EofFree.append {a b : List Token} (ha : EofFree a) (hb : EofFree b) :
    EofFree (a ++ b) := by
  intro t ht
  rcases List.mem_append.mp ht with h | h
  · exact ha t h
  · exact hb t h

/-- Reading takes a front of the input and does not look behind it. -/
def Settles (read : List Token -> Parsed α) (input : List Token) : Prop :=
  exists taken, taken ++ (read input).rest = input ∧ EofFree taken ∧
    forall more, read (taken ++ more) = ⟨(read input).value, (read input).errors, more⟩

/-- Reading takes a front of the input and goes on behind it unless a token stops
it there. -/
def SettlesUpTo (stop : Predicate) (read : List Token -> Parsed α) (input : List Token) :
    Prop :=
  exists taken, taken ++ (read input).rest = input ∧ EofFree taken ∧
    forall more, StandsAt stop more ->
      read (taken ++ more) = ⟨(read input).value, (read input).errors, more⟩

/-!
## Contents, values and runs
-/

def StopsAtEof (stop : Predicate) : Prop :=
  forall t : Token, t.isEof = true -> stop t = true

theorem StopsAtEof.not_isEof {stop : Predicate} (h : StopsAtEof stop) {t : Token}
    (ht : stop t = false) : t.isEof = false := by
  rw [Bool.eq_false_iff]
  intro heof
  rw [h t heof] at ht
  cases ht

theorem stopsAtEof_ends (c : Construct) : StopsAtEof c.ends := by
  intro t ht
  simp [Construct.ends, ht]

theorem closedBy_errors_nil {c : Construct} {l : Location} {p : Parsed (List Token)}
    (h : (p.closedBy c l).errors = []) :
    exists t rest, p.rest = t :: rest ∧ t.isEof = false ∧ p.errors = [] ∧
      p.closedBy c l = ⟨p.value, [], rest⟩ := by
  unfold Parsed.closedBy at h ⊢
  split at h
  · simp at h
  · rename_i t rest hrest
    split at h
    · simp at h
    · rename_i heof
      have herrors : p.errors = [] := h
      refine ⟨t, rest, hrest, by simpa using heof, herrors, ?_⟩
      simp only [herrors, if_neg heof]

theorem closedBy_cons {c : Construct} {l : Location} {t : Token} (ht : t.isEof = false)
    (values more : List Token) :
    (Parsed.mk values [] (t :: more)).closedBy c l = ⟨values, [], more⟩ := by
  simp [Parsed.closedBy, ht]

theorem not_isFull_of_errors_nil {n : Nesting} {c : Construct} {l : Location} {ts : List Token}
    (h : (parseContents n c l ts).errors = []) : n.isFull = false := by
  rw [Bool.eq_false_iff]
  intro hfull
  rw [parseContents_of_full hfull] at h
  cases h

theorem parseRun_of_contents {n : Nesting} {c : Construct} {l : Location} {ts : List Token}
    (h : (parseContents n c l ts).errors = []) :
    exists t, t.isEof = false ∧ t.is c.closing = true ∧
      parseRun n.deeper c.ends ts =
        ⟨(parseContents n c l ts).value, [], t :: (parseContents n c l ts).rest⟩ := by
  have hstands := standsAt_parseRun_rest n.deeper c.ends ts
  have hfull := not_isFull_of_errors_nil h
  rw [parseContents_of_not_full hfull] at h ⊢
  rcases closedBy_errors_nil h with ⟨t, rest, hrest, ht, herrors, hclosed⟩
  have hends : c.ends t = true := hstands t (by rw [hrest]; rfl)
  refine ⟨t, ht, Construct.is_closing_of_ends hends ht, ?_⟩
  rw [hclosed, ← hrest, ← herrors]

theorem settles_parseContents_of_run {n : Nesting} {c : Construct} {l : Location}
    {ts : List Token}
    (hrun : (parseRun n.deeper c.ends ts).errors = [] ->
      SettlesUpTo c.ends (parseRun n.deeper c.ends) ts)
    (h : (parseContents n c l ts).errors = []) : Settles (parseContents n c l) ts := by
  have hfull := not_isFull_of_errors_nil h
  rw [parseContents_of_not_full hfull] at h
  rcases closedBy_errors_nil h with ⟨t, rest, hrest, ht, herrors, hclosed⟩
  rcases hrun herrors with ⟨taken, htaken, hfree, hmore⟩
  have hstop : c.ends t = true := by
    refine standsAt_parseRun_rest n.deeper c.ends ts t ?_
    rw [hrest]
    rfl
  refine ⟨taken ++ [t], ?_, hfree.append (eofFree_nil.cons ht), ?_⟩
  · rw [parseContents_of_not_full hfull, hclosed, List.append_assoc]
    rw [hrest] at htaken
    exact htaken
  · intro more
    have hread := hmore (t :: more) fun u hu => by
      rcases Option.some.inj hu with rfl
      exact hstop
    rw [parseContents_of_not_full hfull, parseContents_of_not_full hfull, hclosed,
      List.append_assoc, List.singleton_append, hread, herrors]
    exact closedBy_cons ht _ more

theorem settles_readComponent_of_opens_none (n : Nesting) {t : Token} (ts : List Token)
    (ho : t.opens? = none) : Settles (readComponent n t) ts := by
  refine ⟨[], ?_, eofFree_nil, ?_⟩
  · rw [readComponent_of_opens_none n ts ho]
    rfl
  · intro more
    rw [readComponent_of_opens_none n ts ho]
    exact readComponent_of_opens_none n more ho

theorem settles_readComponent_of_contents {n : Nesting} {t : Token} {c : Construct}
    {ts : List Token} (ho : t.opens? = some c)
    (h : Settles (parseContents n c t.location) ts) : Settles (readComponent n t) ts := by
  rcases h with ⟨taken, htaken, hfree, hmore⟩
  refine ⟨taken, ?_, hfree, ?_⟩
  · rw [readComponent_eq_parseContents n ts ho]
    exact htaken
  · intro more
    rw [readComponent_eq_parseContents n ts ho, readComponent_eq_parseContents n _ ho, hmore more]

theorem settlesUpTo_parseRun_cons {n : Nesting} {stop : Predicate} (heof : StopsAtEof stop)
    {t : Token} {ts : List Token} (ht : stop t = false)
    (hfirst : Settles (readComponent n t) ts)
    (hothers : SettlesUpTo stop (parseRun n stop) (readComponent n t ts).rest) :
    SettlesUpTo stop (parseRun n stop) (t :: ts) := by
  rcases hfirst with ⟨taken, htaken, hfree, hmore⟩
  rcases hothers with ⟨taken', htaken', hfree', hmore'⟩
  refine ⟨t :: (taken ++ taken'), ?_, (hfree.append hfree').cons (heof.not_isEof ht), ?_⟩
  · rw [parseRun_cons ts ht, List.cons_append, List.append_assoc]
    show t :: (taken ++ (taken' ++ (parseRun n stop (readComponent n t ts).rest).rest)) = _
    rw [htaken', htaken]
  · intro more hstands
    rw [List.cons_append, List.append_assoc, parseRun_cons _ ht, hmore, parseRun_cons ts ht]
    show (Parsed.mk _ _ (taken' ++ more)).followedBy (parseRun n stop (taken' ++ more)) = _
    rw [hmore' more hstands]
    rfl

theorem settlesUpTo_parseRun_of_standsAt {n : Nesting} {stop : Predicate} {ts : List Token}
    (h : StandsAt stop ts) : SettlesUpTo stop (parseRun n stop) ts := by
  refine ⟨[], ?_, eofFree_nil, ?_⟩
  · rw [parseRun_of_standsAt h]
    rfl
  · intro more hmore
    rw [parseRun_of_standsAt h]
    exact parseRun_of_standsAt hmore

/-- A run without errors settles up to where it stops. -/
theorem settlesUpTo_parseRun (n : Nesting) (stop : Predicate) (heof : StopsAtEof stop)
    (ts : List Token) (h : (parseRun n stop ts).errors = []) :
    SettlesUpTo stop (parseRun n stop) ts := by
  induction n, stop, ts using readRun_induction with
  | nil n stop => exact settlesUpTo_parseRun_of_standsAt (standsAt_nil stop)
  | stopped n stop t ts ht => exact settlesUpTo_parseRun_of_standsAt (standsAt_cons ts ht)
  | single n stop t ts ht ho ih =>
      have hfirst := settles_readComponent_of_opens_none n ts ho
      rw [parseRun_cons ts ht, readComponent_of_opens_none n ts ho] at h
      refine settlesUpTo_parseRun_cons heof ht hfirst ?_
      rw [readComponent_of_opens_none n ts ho]
      exact ih heof h
  | nested n stop t ts c ht ho ihinside ih =>
      rw [parseRun_cons ts ht, readComponent_eq_parseContents n ts ho] at h
      rcases List.append_eq_nil_iff.mp h with ⟨hcontents, hothers⟩
      have hinside : Settles (parseContents n c t.location) ts :=
        settles_parseContents_of_run (ihinside (stopsAtEof_ends c)) hcontents
      refine settlesUpTo_parseRun_cons heof ht (settles_readComponent_of_contents ho hinside) ?_
      rw [readComponent_eq_parseContents n ts ho]
      exact ih heof hothers

theorem settles_parseContents {n : Nesting} {c : Construct} {l : Location} {ts : List Token}
    (h : (parseContents n c l ts).errors = []) : Settles (parseContents n c l) ts :=
  settles_parseContents_of_run (settlesUpTo_parseRun n.deeper c.ends (stopsAtEof_ends c) ts) h

theorem settles_readComponent {n : Nesting} {t : Token} {ts : List Token}
    (h : (readComponent n t ts).errors = []) : Settles (readComponent n t) ts := by
  cases ho : t.opens? with
  | none => exact settles_readComponent_of_opens_none n ts ho
  | some c =>
      rw [readComponent_eq_parseContents n ts ho] at h
      exact settles_readComponent_of_contents ho (settles_parseContents h)

end StyleTokens
