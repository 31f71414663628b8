import StyleTokens.Proofs.Structure.Run

/-!
# Counting open constructs

The count of open constructs can be kept as one number that is handed on from value
to value, raised behind every opening token that may be entered and lowered again
where its construct ends.  Reading with such a counter is reading with a nesting that
every construct gets from around it, and it returns the counter as it was.
-/

namespace StyleTokens

namespace Nesting

def enter? (n : Nesting) : Option Nesting := if n.isFull then none else some n.deeper

def leave (n : Nesting) : Nesting := ⟨n.limit, n.depth - 1⟩

theorem leave_deeper (n : Nesting) : n.deeper.leave = n := rfl

end Nesting

theorem Parsed.closedBy_rest_suffix (c : Construct) (l : Location) (p : Parsed (List Token)) :
    (p.closedBy c l).rest <:+ p.rest := by
  unfold Parsed.closedBy
  split
  · exact List.nil_suffix
  · rename_i t rest hrest
    rw [hrest]
    split
    · exact List.suffix_refl (t :: rest)
    · exact List.suffix_cons t rest

/-- Values that were read, and the counter behind them. -/
structure Counted (input : List Token) where
  parsed : Parsed (List Token)
  counter : Nesting
  rest_suffix : parsed.rest <:+ input

namespace Counted

def stopped (n : Nesting) (input : List Token) : Counted input :=
  ⟨⟨[], [], input⟩, n, List.suffix_refl input⟩

theorem skipNested_zero_suffix (input : List Token) : skipNested 0 input <:+ input :=
  skipNested_suffix 0 input

def skipped (n : Nesting) (l : Location) (input : List Token) : Counted input :=
  ⟨⟨[], [.depthLimit n.limit l], skipNested 0 input⟩, n, skipNested_zero_suffix input⟩

def closed (c : Construct) (l : Location) {input : List Token} (p : Counted input) :
    Counted input :=
  ⟨p.parsed.closedBy c l, p.counter.leave,
    (p.parsed.closedBy_rest_suffix c l).trans p.rest_suffix⟩

def behind {inner input : List Token} (t : Token) (errors : List StructureError)
    (h : inner <:+ input) (p : Counted inner) : Counted input :=
  ⟨(Parsed.mk t errors inner).followedBy p.parsed, p.counter, p.rest_suffix.trans h⟩

end Counted

def readCounting (n : Nesting) (stop : Predicate) (input : List Token) : Counted input :=
  match input with
  | [] => .stopped n []
  | t :: ts =>
      if stop t then .stopped n (t :: ts)
      else
        match t.opens? with
        | none => (readCounting n stop ts).behind t [] (List.suffix_cons t ts)
        | some c =>
            let inner :=
              match n.enter? with
              | none => Counted.skipped n t.location ts
              | some m => (readCounting m c.ends ts).closed c t.location
            (readCounting inner.counter stop inner.parsed.rest).behind
              (c.token inner.parsed.value t.location) inner.parsed.errors
              (inner.rest_suffix.trans (List.suffix_cons t ts))
termination_by input.length
decreasing_by
  · exact Nat.lt_succ_self _
  · exact Nat.lt_succ_self _
  · exact Nat.lt_succ_of_le inner.rest_suffix.length_le

def countContents (n : Nesting) (c : Construct) (l : Location) (input : List Token) :
    Counted input :=
  match n.enter? with
  | none => .skipped n l input
  | some m => (readCounting m c.ends input).closed c l

theorem readCounting_of_opens_none {n : Nesting} {stop : Predicate} {t : Token}
    (ts : List Token) (h : stop t = false) (ho : t.opens? = none) :
    readCounting n stop (t :: ts) =
      (readCounting n stop ts).behind t [] (List.suffix_cons t ts) := by
  rw [readCounting, if_neg (by simp [h])]
  split
  · rfl
  · rename_i c hc
    rw [ho] at hc
    cases hc

theorem readCounting_of_opens {n : Nesting} {stop : Predicate} {t : Token} {c : Construct}
    (ts : List Token) (h : stop t = false) (ho : t.opens? = some c) :
    readCounting n stop (t :: ts) =
      (readCounting (countContents n c t.location ts).counter stop
          (countContents n c t.location ts).parsed.rest).behind
        (c.token (countContents n c t.location ts).parsed.value t.location)
        (countContents n c t.location ts).parsed.errors
        ((countContents n c t.location ts).rest_suffix.trans (List.suffix_cons t ts)) := by
  rw [readCounting, if_neg (by simp [h])]
  split
  · rename_i hc
    rw [ho] at hc
    cases hc
  · rename_i d hd
    rw [ho] at hd
    cases hd
    rfl

theorem countContents_eq {n : Nesting} {c : Construct} (l : Location) {ts : List Token}
    (h : (readCounting n.deeper c.ends ts).parsed = parseRun n.deeper c.ends ts ∧
      (readCounting n.deeper c.ends ts).counter = n.deeper) :
    (countContents n c l ts).parsed = parseContents n c l ts ∧
      (countContents n c l ts).counter = n := by
  cases hfull : n.isFull with
  | true =>
      rw [parseContents_of_full hfull]
      simp only [countContents, Nesting.enter?, hfull, if_true]
      exact ⟨rfl, rfl⟩
  | false =>
      rw [parseContents_of_not_full hfull, ← h.1]
      simp only [countContents, Nesting.enter?, hfull, Bool.false_eq_true, if_false]
      constructor
      · rfl
      · show (readCounting n.deeper c.ends ts).counter.leave = n
        rw [h.2, Nesting.leave_deeper]

/-- Reading with a counter reads the same values and returns the counter as it was. -/
theorem readCounting_eq (n : Nesting) (stop : Predicate) (ts : List Token) :
    (readCounting n stop ts).parsed = parseRun n stop ts ∧
      (readCounting n stop ts).counter = n := by
  induction n, stop, ts using readRun_induction with
  | nil n stop =>
      rw [parseRun_of_standsAt (standsAt_nil stop), readCounting]
      exact ⟨rfl, rfl⟩
  | stopped n stop t ts ht =>
      rw [parseRun_of_standsAt (standsAt_cons ts ht), readCounting, if_pos ht]
      exact ⟨rfl, rfl⟩
  | single n stop t ts ht ho ih =>
      rw [parseRun_cons ts ht, readComponent_of_opens_none n ts ho,
        readCounting_of_opens_none ts ht ho]
      constructor
      · show (Parsed.mk t [] ts).followedBy (readCounting n stop ts).parsed = _
        rw [ih.1]
      · exact ih.2
  | nested n stop t ts c ht ho ihinside ih =>
      -- behind the construct the counter is what it was in front, so the run goes on alike
      obtain ⟨hparsed, hcounter⟩ := countContents_eq t.location ihinside
      rw [parseRun_cons ts ht, readComponent_eq_parseContents n ts ho,
        readCounting_of_opens ts ht ho]
      constructor
      · show Parsed.followedBy
            ⟨c.token (countContents n c t.location ts).parsed.value t.location,
              (countContents n c t.location ts).parsed.errors,
              (countContents n c t.location ts).parsed.rest⟩
            (readCounting (countContents n c t.location ts).counter stop
              (countContents n c t.location ts).parsed.rest).parsed = _
        rw [hcounter, hparsed]
        exact congrArg (Parsed.followedBy _) ih.1
      · show (readCounting (countContents n c t.location ts).counter stop
          (countContents n c t.location ts).parsed.rest).counter = n
        rw [hcounter, hparsed]
        exact ih.2

end StyleTokens
