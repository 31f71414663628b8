import StyleTokens.Proofs.Queue.Standing
import StyleTokens.Proofs.Strategy.Segments
import StyleTokens.Strategy.Pairing

/-!
# A keyed pair is the pair that its key selects

Where the key has a strategy for its value, a keyed pair is read as the pair of the two
strategies: the same value, the same errors in the same order, and the same queue behind it.
Both follow one law for a delimited run, which says for runs without tokens, runs without a
delimiter and divided runs what is read from which tokens.
-/

namespace StyleTokens

/-!
## The search for a delimiter
-/

/-- The way to a delimiter, token by token: the tokens on it that belong to no value, and the
queue behind the delimiter.  The end of the text is not passed. -/
inductive Scanned (d : Predicate) : List Token -> List Token -> List Token -> Prop where
  | nothing : Scanned d [] [] []
  | found {t : Token} (ts : List Token) (h : d t = true) : Scanned d (t :: ts) [] ts
  | ended {t : Token} (ts : List Token) (h : d t = false) (heof : t.isEof = true) :
      Scanned d (t :: ts) [] (t :: ts)
  | stray {t : Token} {ts strays rest : List Token} (h : d t = false) (heof : t.isEof = false)
      (hsign : t.isSignificant = true) (hrest : Scanned d ts strays rest) :
      Scanned d (t :: ts) (t :: strays) rest
  | blank {t : Token} {ts strays rest : List Token} (h : d t = false) (heof : t.isEof = false)
      (hsign : t.isSignificant = false) (hrest : Scanned d ts strays rest) :
      Scanned d (t :: ts) strays rest

namespace Queue

theorem scanned_divider (d : Predicate) (ts : List Token) :
    Scanned d ts ((before (isDivider d) ts).filter Token.isSignificant)
      (dropIf d (onward (isDivider d) ts)) := by
  induction ts with
  | nil => exact .nothing
  | cons t ts ih =>
      cases h : d t with
      | true =>
          have hdivider : isDivider d t = true := by rw [isDivider, h, Bool.true_or]
          rw [before_cons_of_pos ts hdivider, onward_cons_of_pos ts hdivider,
            dropIf_cons_of_pos ts h]
          exact .found ts h
      | false =>
          cases heof : t.isEof with
          | true =>
              have hdivider : isDivider d t = true := by rw [isDivider, heof, Bool.or_true]
              rw [before_cons_of_pos ts hdivider, onward_cons_of_pos ts hdivider,
                dropIf_cons_of_neg ts h]
              exact .ended ts h heof
          | false =>
              have hdivider : isDivider d t = false := by rw [isDivider, h, heof]; rfl
              rw [before_cons_of_neg ts hdivider, onward_cons_of_neg ts hdivider]
              cases hsign : t.isSignificant with
              | true =>
                  rw [List.filter_cons_of_pos hsign]
                  exact .stray h heof hsign ih
              | false =>
                  rw [List.filter_cons_of_neg (by simp [hsign])]
                  exact .blank h heof hsign ih

theorem exists_first {d : Predicate} {ts : List Token} (h : ts.any d = true) :
    exists t us, onward d ts = t :: us ∧ d t = true ∧ ts = before d ts ++ t :: us := by
  have happend := before_append_onward d ts
  cases hrest : onward d ts with
  | nil =>
      rw [hrest, List.append_nil] at happend
      rcases List.any_eq_true.mp h with ⟨t, ht, hd⟩
      rw [← happend] at ht
      rw [stop_eq_false_of_mem_before ht] at hd
      cases hd
  | cons t us =>
      have hstands := standsAt_onward d ts
      rw [hrest] at hstands happend
      exact ⟨t, us, rfl, hstands t rfl, happend.symm⟩

end Queue

namespace Strategy

variable {α β : Type}

/-!
## The law of a delimited pair
-/

/-- How a pair is read around a delimiter.  Only a run that is divided has a value.  Errors of
the division come first, then those of the first half, then those of the second. -/
inductive PairRead (first : Strategy α) (second : Strategy β) (d : Predicate) (args : Args)
    (failed : Bool) :
    List Token -> Option (α × β) × List StrategyError × List Token -> Prop where
  | noTokens : PairRead first second d args failed [] (none, [.noTokens, .incompletePair], [])
  | undivided {input : List Token} (hne : input ≠ []) (h : forall t, t ∈ input -> d t = false) :
      PairRead first second d args failed input
        (none, [.splitNotFound, .incompletePair], input)
  | divided {front behind strays rest : List Token} {t : Token}
      (hfront : forall u, u ∈ front -> d u = false) (ht : d t = true)
      (hscan : Scanned d (Queue.skipBlank (t :: behind)) strays rest) :
      PairRead first second d args failed (front ++ t :: behind)
        (some ((first.read args failed front).value, (second.read args true rest).value),
          unknownTokens strays (Queue.location (front ++ t :: behind)) ++
            ((first.read args failed front).errors ++ (second.read args true rest).errors),
          (second.read args true rest).rest)

theorem collect_readSecond (second : Strategy β) (args : Args) (failed : Bool)
    (first : Outcome StrategyError α) (errors : List StrategyError) (rest : List Token) :
    (collect (second.readSecond args failed first errors rest)).parts =
      (some (first.value, (second.read args true rest).value),
        errors ++ (first.errors ++ (second.read args true rest).errors),
        (second.read args true rest).rest) := by
  have hfailed : (failed || ({ first? := some first } : Halves StrategyError α β).isError) =
      true := Bool.or_true failed
  simp only [readSecond, hfailed]
  rfl

theorem pairRead_pair (first : Strategy α) (second : Strategy β) (delimiter : Delimiter)
    (args : Args) (failed : Bool) (input : List Token) :
    PairRead first second delimiter.test args failed input
      ((first.pair second (some delimiter)).read args failed input).parts := by
  cases input with
  | nil => exact .noTokens
  | cons t ts =>
      have hread : (first.pair second (some delimiter)).read args failed (t :: ts) =
          collect (first.delimitedHalves second delimiter.test args failed (t :: ts)) := rfl
      rw [hread, delimitedHalves]
      by_cases hany : (t :: ts).any delimiter.test = true
      · rw [if_pos hany]
        show PairRead first second delimiter.test args failed (t :: ts)
          (collect (second.readSecond args failed
            (first.read args failed (Queue.before delimiter.test (t :: ts))).outcome _ _)).parts
        rw [collect_readSecond]
        obtain ⟨u, us, honward, hu, hinput⟩ := Queue.exists_first hany
        have hscan : Scanned delimiter.test (Queue.skipBlank (u :: us))
            (Queue.divide delimiter.test (t :: ts)).strays
            (Queue.divide delimiter.test (t :: ts)).rest := by
          rw [← honward]
          exact Queue.scanned_divider delimiter.test _
        have hdivided : PairRead first second delimiter.test args failed
            (Queue.before delimiter.test (t :: ts) ++ u :: us) _ :=
          .divided (fun _ => Queue.stop_eq_false_of_mem_before) hu hscan
        rw [← hinput] at hdivided
        exact hdivided
      · rw [if_neg hany]
        refine .undivided (List.cons_ne_nil t ts) ?_
        simpa using hany

/-!
## Keyed pairs
-/

/-- Where the key that is read has a strategy for its value, the two halves are those of the
pair of both strategies. -/
theorem keyedHalves_of_select {key : Strategy α} {select : α -> Option (Strategy β)}
    {value : Strategy β} {delimiter : Delimiter} {args : Args} {failed : Bool}
    {input : List Token}
    (h : select (key.read args failed (Queue.before delimiter.test input)).value = some value)
    (shown : α -> String) :
    key.keyedHalves select shown delimiter.test args failed input =
      key.halves value (some delimiter) args failed input := by
  unfold keyedHalves halves
  split
  · rfl
  · simp only [delimitedHalves]
    split
    · have hselect : select (key.read args failed
          (Queue.divide delimiter.test input).front).outcome.value = some value := h
      rw [hselect]
    · rfl

/-- A keyed pair whose keys all have one strategy for their value is the delimited pair: both
read the same value with the same errors in the same order, leave the same queue, and follow
the law of a delimited run. -/
theorem keyed_const_eq_pair (key : Strategy α) (value : Strategy β) (shown : α -> String)
    (delimiter : Delimiter) (args : Args) (failed : Bool) (input : List Token) :
    (key.keyed (fun _ => some value) shown delimiter).read args failed input =
        (key.pair value (some delimiter)).read args failed input ∧
      PairRead key value delimiter.test args failed input
        ((key.keyed (fun _ => some value) shown delimiter).read args failed input).parts := by
  have hhalves : key.keyedHalves (fun _ => some value) shown delimiter.test args failed input =
      key.halves value (some delimiter) args failed input := by
    refine keyedHalves_of_select ?_ shown
    rfl
  have hsame : (key.keyed (fun _ => some value) shown delimiter).read args failed input =
      (key.pair value (some delimiter)).read args failed input := congrArg collect hhalves
  refine ⟨hsame, ?_⟩
  rw [hsame]
  exact pairRead_pair key value delimiter args failed input

end Strategy
end StyleTokens
