import Mathlib.Data.List.Induction
import Mathlib.Data.List.Nodup
import StyleTokens.Proofs.Strategy.Segments
import StyleTokens.Proofs.Strategy.Skipping
import StyleTokens.Proofs.Text.Escaped

/-!
# What the pairs of a list are collected to

Pairs are collected in order.  The mapping, the number of missing pairs and the keys that came
again are told from the pairs at once: a key has the value it came with last, and it is
reported where it comes for the second time, so that it is reported once.
-/

namespace StyleTokens
namespace Mapping

section Keys

variable {κ ν : Type}

/-!
## Keys and values of a run of pairs
-/

def keys (pairs : List (Option (κ × ν))) : List κ :=
  pairs.filterMap fun pair => pair.map Prod.fst

/-- The last pair with the key has the value. -/
def LastValue (pairs : List (Option (κ × ν))) (k : κ) (v : ν) : Prop :=
  exists front behind, pairs = front ++ some (k, v) :: behind ∧ k ∉ keys behind

/-- The keys at the places where they come for the second time: one like them is in front. -/
def secondTimes [BEq κ] (ks : List κ) : List κ :=
  (ks.zipIdx.filter fun e => (ks.take e.2).count e.1 == 1).map Prod.fst

theorem keys_append (pairs others : List (Option (κ × ν))) :
    keys (pairs ++ others) = keys pairs ++ keys others :=
  List.filterMap_append

theorem lastValue_concat {pairs : List (Option (κ × ν))} {pair : Option (κ × ν)} {k : κ}
    {v : ν} :
    LastValue (pairs ++ [pair]) k v ↔
      pair = some (k, v) ∨ (k ∉ keys [pair] ∧ LastValue pairs k v) := by
  constructor
  · rintro ⟨front, behind, heq, hlast⟩
    rcases List.eq_nil_or_concat behind with rfl | ⟨behind, last, rfl⟩
    · obtain ⟨-, hpair⟩ := List.append_inj' heq rfl
      exact Or.inl (List.singleton_inj.mp hpair)
    · rw [List.concat_eq_append] at heq hlast
      rw [← List.cons_append, ← List.append_assoc] at heq
      obtain ⟨hfront, hpair⟩ := List.append_inj' heq rfl
      rw [keys_append, List.mem_append, not_or, ← hpair] at hlast
      exact Or.inr ⟨hlast.2, front, behind, hfront, hlast.1⟩
  · rintro (rfl | ⟨hne, front, behind, rfl, hlast⟩)
    · exact ⟨pairs, [], rfl, List.not_mem_nil⟩
    · refine ⟨front, behind ++ [pair], by rw [List.append_assoc, List.cons_append], ?_⟩
      rw [keys_append, List.mem_append, not_or]
      exact ⟨hlast, hne⟩

section Repeated

variable [BEq κ]

/-- A key comes for the second time where there is exactly one like it in front. -/
theorem secondTimes_concat (ks : List κ) (k : κ) :
    secondTimes (ks ++ [k]) = secondTimes ks ++ if ks.count k = 1 then [k] else [] := by
  have hsame : ks.zipIdx.filter (fun e => ((ks ++ [k]).take e.2).count e.1 == 1) =
      ks.zipIdx.filter fun e => (ks.take e.2).count e.1 == 1 := by
    refine List.filter_congr fun e he => ?_
    rw [List.take_append_of_le_length (Nat.le_of_lt (List.snd_lt_of_mem_zipIdx he))]
  have hlast : (ks ++ [k]).take ks.length = ks := List.take_left' rfl
  rw [secondTimes, List.zipIdx_append, List.filter_append, List.map_append, hsame, secondTimes,
    Nat.zero_add, List.zipIdx_singleton, List.filter_cons, hlast]
  by_cases hcount : ks.count k = 1
  · simp [hcount]
  · simp [hcount]

variable [LawfulBEq κ]

theorem mem_secondTimes {ks : List κ} {k : κ} : k ∈ secondTimes ks ↔ 2 ≤ ks.count k := by
  induction ks using List.reverseRecOn with
  | nil => simp [secondTimes]
  | append_singleton ks j ih =>
      rw [secondTimes_concat, List.mem_append, ih, List.count_append, List.count_singleton]
      by_cases hj : j = k
      · subst hj
        by_cases hcount : ks.count j = 1
        · simp [hcount]
        · rw [if_neg hcount, if_pos (beq_self_eq_true j)]
          simp only [List.not_mem_nil, or_false]
          omega
      · have hmem : k ∉ (if ks.count j = 1 then [j] else []) := by
          split
          · exact fun h => hj (List.mem_singleton.mp h).symm
          · exact List.not_mem_nil
        simp [hmem, hj]

theorem nodup_secondTimes (ks : List κ) : (secondTimes ks).Nodup := by
  induction ks using List.reverseRecOn with
  | nil => exact List.nodup_nil
  | append_singleton ks k ih =>
      rw [secondTimes_concat]
      split
      · rename_i hcount
        refine List.nodup_append.mpr ⟨ih, List.nodup_singleton k, ?_⟩
        intro j hj i hi
        rw [mem_secondTimes] at hj
        rintro rfl
        rw [List.mem_singleton.mp hi] at hj
        omega
      · rwa [List.append_nil]

end Repeated

/-!
## The tally of a run
-/

/-- A tally tells which keys a run of pairs has, their last values, how many pairs are
missing, and which keys come again. -/
structure Accounts [BEq κ] (t : Tally κ ν) (pairs : List (Option (κ × ν))) : Prop where
  nodup : (t.bound.map Prod.fst).Nodup
  mem_iff : forall k, k ∈ t.bound.map Prod.fst ↔ k ∈ keys pairs
  get?_iff : forall k v, t.bound.get? k = some v ↔ LastValue pairs k v
  missed_eq : t.missed = pairs.countP Option.isNone
  repeated_eq : t.repeated = secondTimes (keys pairs)

theorem accounts_nil [BEq κ] : Accounts ({} : Tally κ ν) [] where
  nodup := List.nodup_nil
  mem_iff _ := Iff.rfl
  get?_iff k v := by
    constructor
    · intro h
      cases h
    · rintro ⟨front, behind, heq, _⟩
      cases front <;> cases heq
  missed_eq := rfl
  repeated_eq := rfl

variable [BEq κ] [LawfulBEq κ]

theorem Accounts.noteKey_eq {t : Tally κ ν} {pairs : List (Option (κ × ν))}
    (h : Accounts t pairs) (k : κ) : t.noteKey k = secondTimes (keys pairs ++ [k]) := by
  have hbound : t.bound.hasKey k = decide (1 ≤ (keys pairs).count k) := by
    rw [Bool.eq_iff_iff, hasKey_iff, h.mem_iff, decide_eq_true_iff, Nat.one_le_iff_ne_zero,
      ← Nat.pos_iff_ne_zero, List.count_pos_iff]
  have hrepeated : t.repeated.contains k = decide (2 ≤ (keys pairs).count k) := by
    rw [Bool.eq_iff_iff, List.contains_iff_mem, h.repeated_eq, mem_secondTimes,
      decide_eq_true_iff]
  rw [Tally.noteKey, hbound, hrepeated, secondTimes_concat, h.repeated_eq]
  by_cases hcount : (keys pairs).count k = 1
  · simp [hcount]
  · rw [if_neg hcount, List.append_nil, if_neg]
    simp only [Bool.and_eq_true, decide_eq_true_iff, Bool.not_eq_true', decide_eq_false_iff_not]
    omega

theorem Accounts.add {t : Tally κ ν} {pairs : List (Option (κ × ν))} (h : Accounts t pairs)
    (pair : Option (κ × ν)) : Accounts (t.add pair) (pairs ++ [pair]) := by
  cases pair with
  | none =>
      have hkeys : keys (pairs ++ [none]) = keys pairs := by
        rw [keys_append]
        exact List.append_nil _
      exact
        { nodup := h.nodup
          mem_iff := fun k => by rw [hkeys]; exact h.mem_iff k
          get?_iff := fun k v => by
            rw [lastValue_concat, ← h.get?_iff]
            simp [keys, Tally.add]
          missed_eq := by
            rw [List.countP_append, ← h.missed_eq]
            rfl
          repeated_eq := by rw [hkeys]; exact h.repeated_eq }
  | some e =>
      rcases e with ⟨j, u⟩
      have hkeys : keys (pairs ++ [some (j, u)]) = keys pairs ++ [j] := keys_append _ _
      exact
        { nodup := nodup_insert h.nodup j u
          mem_iff := fun k => by
            rw [hkeys, List.mem_append, List.mem_singleton, ← h.mem_iff]
            exact mem_map_fst_insert
          get?_iff := fun k v => by
            show (t.bound.insert j u).get? k = some v ↔ _
            rw [lastValue_concat, ← h.get?_iff, get?_insert]
            by_cases hj : j = k
            · subst hj
              simp [keys]
            · rw [if_neg (by simpa using hj)]
              simp [keys, hj, Ne.symm hj]
          missed_eq := by
            rw [List.countP_append, ← h.missed_eq]
            rfl
          repeated_eq := by rw [hkeys]; exact h.noteKey_eq j }

theorem accounts_ofPairs (pairs : List (Option (κ × ν))) :
    Accounts (Tally.ofPairs pairs) pairs := by
  induction pairs using List.reverseRecOn with
  | nil => exact accounts_nil
  | append_singleton pairs pair ih =>
      rw [Tally.ofPairs, List.foldl_append]
      exact ih.add pair

end Keys

/-- The pairs are those of all entries, or of the ones without errors if faulty entries are
skipped.  The mapping binds the keys of these pairs, each to the value that the key came with
last.  Behind one error for each faulty entry, which says where it stands, is one for the
missing pairs, if there are any, and one for the keys that came again, which names each of
them once, in the order in which they came for the second time. -/
theorem build_eq_tally {ν : Type} (skips : Bool)
    (entries : List (Outcome String (Option (String × ν)))) :
    let pairs :=
      (if skips then entries.filter fun e => e.errors.isEmpty else entries).map Outcome.value
    let faults := (entries.zipIdx.filter fun e => !e.1.errors.isEmpty).map fun e =>
      if skips then StrategyError.skippedEntry e.2 e.1.errors else .listEntry e.2 e.1.errors
    let missed := pairs.countP Option.isNone
    let again := secondTimes (keys pairs)
    let built := build Text.quoted skips entries
    (built.value.map Prod.fst).Nodup ∧
      (forall k, k ∈ built.value.map Prod.fst ↔ k ∈ keys pairs) ∧
      (forall k v, built.value.get? k = some v ↔ LastValue pairs k v) ∧
      (forall k, k ∈ again ↔ 2 ≤ (keys pairs).count k) ∧
      (again.map Text.quoted).Nodup ∧
      built.errors = faults ++ (if missed = 0 then [] else [.missedPairs missed]) ++
        if again = [] then [] else [.duplicateKeys (again.map Text.quoted)] := by
  intro pairs faults missed again built
  have haccounts : Accounts (Tally.ofPairs pairs) pairs := accounts_ofPairs pairs
  refine ⟨haccounts.nodup, haccounts.mem_iff, haccounts.get?_iff, fun k => mem_secondTimes, ?_, ?_⟩
  · exact List.Nodup.map (fun _ _ => Text.quoted_injective) (nodup_secondTimes _)
  · have hfaults : ListShape.entryErrors skips 0 entries = faults :=
      ListShape.entryErrors_eq_map skips 0 entries
    have htally : (Tally.ofPairs pairs).errors Text.quoted =
        (if missed = 0 then [] else [.missedPairs missed]) ++
          if again = [] then [] else [.duplicateKeys (again.map Text.quoted)] := by
      simp only [Tally.errors, haccounts.missed_eq, haccounts.repeated_eq, List.isEmpty_iff]
      rfl
    rw [List.append_assoc, ← hfaults, ← htally]
    rfl

/-- Entries of which the second is faulty and the third missing, and of which one key comes
three times. -/
def repeatedEntries : List (Outcome String (Option (String × Nat))) :=
  [.success (some ("a", 1)), .error (some ("b", 2)) "bad", .success none, .success (some ("a", 3)),
    .success (some ("c", 4)), .success (some ("a", 5))]

theorem build_repeatedEntries :
    (build Text.quoted true repeatedEntries).value.get? "a" = some 5 ∧
      (build Text.quoted true repeatedEntries).value.hasKey "b" = false ∧
      (build Text.quoted true repeatedEntries).errors =
        [.skippedEntry 1 ["bad"], .missedPairs 1, .duplicateKeys ["\"a\""]] := by
  have htally := build_eq_tally true repeatedEntries
  obtain ⟨-, hkeys, hvalues, -, -, herrors⟩ := htally
  refine ⟨(hvalues "a" 5).mpr ?_, ?_, herrors.trans (by decide +kernel)⟩
  · exact ⟨[some ("a", 1), none, some ("a", 3), some ("c", 4)], [], rfl, List.not_mem_nil⟩
  · rw [← Bool.not_eq_true, hasKey_iff, hkeys]
    decide

example : secondTimes ["a", "b", "b", "a", "a"] = ["b", "a"] := by decide

end Mapping
end StyleTokens
