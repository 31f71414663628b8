import StyleTokens.Strategy.Mapping

/-!
# Cutting segments and collecting pairs

A segment in front of a token that ends segments is cut off whole, and the cuts go
on behind the separator.  Elements without errors are all kept.  Pairs whose keys
differ are collected as they come.
-/

namespace StyleTokens

namespace Reading

def parts {input : List Token} (r : Reading α input) : α × List StrategyError × List Token :=
  (r.value, r.errors, r.rest)

end Reading

namespace ListShape

def StartsStop (s : ListShape) (ts : List Token) : Prop :=
  exists t us, ts = t :: us ∧ s.isStop t = true ∧ s.isLoose t = false

section Cut

variable {s : ListShape} {start : Location}

theorem not_isEnd_of_not_isStop {t : Token} (h : s.isStop t = false) : s.isEnd t = false := by
  simp only [isStop, Bool.or_eq_false_iff] at h
  exact h.1.2

theorem not_isEof_of_not_isStop {t : Token} (h : s.isStop t = false) : t.isEof = false := by
  simp only [isStop, Bool.or_eq_false_iff] at h
  exact h.1.1.1

theorem before_segment {seg rest : List Token} (hseg : forall t, t ∈ seg -> s.isStop t = false)
    (hrest : s.StartsStop rest) : Queue.before s.isStop (seg ++ rest) = seg := by
  rcases hrest with ⟨t, us, rfl, hstop, _⟩
  rw [Queue.before_append _ hseg, Queue.before_cons_of_pos us hstop, List.append_nil]

theorem onward_segment {seg rest : List Token} (hseg : forall t, t ∈ seg -> s.isStop t = false)
    (hrest : s.StartsStop rest) : Queue.onward s.isStop (seg ++ rest) = rest := by
  rcases hrest with ⟨t, us, rfl, hstop, _⟩
  rw [Queue.onward_append _ hseg, Queue.onward_cons_of_pos us hstop]

theorem afterSegment_segment {seg rest : List Token}
    (hseg : forall t, t ∈ seg -> s.isStop t = false) (hrest : s.StartsStop rest) :
    s.afterSegment (seg ++ rest) = Queue.dropIf s.isSeparator rest := by
  rw [afterSegment, onward_segment hseg hrest]
  rcases hrest with ⟨t, us, rfl, _, hloose⟩
  rw [skipLoose, List.dropWhile_cons, if_neg (by simp [hloose])]

theorem cut_element {t : Token} (ts : List Token) (hloose : s.isLoose t = false)
    (hend : s.isEnd t = false) (hgate : s.isGate t = false) (heof : t.isEof = false) :
    (s.cut start (t :: ts)).parts =
      (Queue.before s.isStop (t :: ts) :: (s.cut start (s.afterSegment (t :: ts))).parts.1,
        (s.cut start (s.afterSegment (t :: ts))).parts.2) := by
  rw [cut, if_neg (by simp [hloose]), if_neg (by simp [hend]), if_neg (by simp [hgate]),
    if_neg (by simp [heof])]
  rfl

/-- A segment in front of a stop is cut off, and the cuts go on behind the separator. -/
theorem cut_segment {t : Token} {seg rest : List Token} (hloose : s.isLoose t = false)
    (hgate : s.isGate t = false) (hseg : forall u, u ∈ t :: seg -> s.isStop u = false)
    (hrest : s.StartsStop rest) :
    (s.cut start (t :: seg ++ rest)).parts =
      ((t :: seg) :: (s.cut start (Queue.dropIf s.isSeparator rest)).parts.1,
        (s.cut start (Queue.dropIf s.isSeparator rest)).parts.2) := by
  have hstop := hseg t List.mem_cons_self
  have hbefore := before_segment hseg hrest
  have hafter := afterSegment_segment hseg hrest
  rw [List.cons_append] at hbefore hafter ⊢
  rw [cut_element _ hloose (not_isEnd_of_not_isStop hstop) hgate (not_isEof_of_not_isStop hstop),
    hbefore, hafter]

theorem cut_end {t : Token} (ts : List Token) (hend : s.isEnd t = true) :
    (s.cut start (t :: ts)).parts = ([], [], ts) := by
  have hloose : s.isLoose t = false := by simp [isLoose, hend]
  rw [cut, if_neg (by simp [hloose]), if_pos hend]
  rfl

end Cut

theorem entryErrors_of_valid (skips : Bool) {entries : List (Outcome String α)}
    (h : forall e, e ∈ entries -> e.errors = []) (n : Nat) : entryErrors skips n entries = [] := by
  induction entries generalizing n with
  | nil => rfl
  | cons e entries ih =>
      have he : e.isError = false := by simp [Outcome.isError, Outcome.isValid, h e]
      rw [entryErrors, if_neg (by simp [he])]
      exact ih (fun e he => h e (List.mem_cons_of_mem _ he)) (n + 1)

theorem build_of_valid (skips : Bool) {entries : List (Outcome String α)}
    (h : forall e, e ∈ entries -> e.errors = []) :
    build skips entries = .success (entries.map Outcome.value) := by
  have hkept : kept skips entries = entries := by
    unfold kept
    split
    · exact List.filter_eq_self.mpr fun e he => Outcome.isValid_iff.mpr (h e he)
    · rfl
  rw [build, hkept, entryErrors_of_valid skips h]
  rfl

end ListShape

namespace Mapping

section Keys

variable [BEq κ] [LawfulBEq κ]

theorem insert_of_not_mem {m : Mapping κ ν} {k : κ} (h : k ∉ m.map Prod.fst) (v : ν) :
    m.insert k v = m ++ [(k, v)] := by
  induction m with
  | nil => rfl
  | cons e m ih =>
      rcases e with ⟨k', v'⟩
      rw [List.map_cons, List.mem_cons, not_or] at h
      have hne : (k' == k) = false := beq_eq_false_iff_ne.mpr (Ne.symm h.1)
      rw [insert, hne, ih h.2]
      rfl

theorem hasKey_of_not_mem {m : Mapping κ ν} {k : κ} (h : k ∉ m.map Prod.fst) :
    m.hasKey k = false := by
  rw [hasKey, List.any_eq_false]
  intro e he hkey
  exact h (List.mem_map.mpr ⟨e, he, eq_of_beq hkey⟩)

theorem foldl_add_of_nodup (bound : Mapping κ ν) {pairs : List (κ × ν)}
    (h : ((bound ++ pairs).map Prod.fst).Nodup) :
    (pairs.map some).foldl Tally.add { bound } = { bound := bound ++ pairs } := by
  induction pairs generalizing bound with
  | nil => rw [List.append_nil]; rfl
  | cons e pairs ih =>
      rcases e with ⟨k, v⟩
      have hnew : k ∉ bound.map Prod.fst := by
        rw [List.map_append, List.nodup_append] at h
        intro hk
        exact h.2.2 k hk k (by simp) rfl
      have hadd : Tally.add { bound } (some (k, v)) = { bound := bound ++ [(k, v)] } := by
        simp [Tally.add, Tally.noteKey, insert_of_not_mem hnew, hasKey_of_not_mem hnew]
      have happend : bound ++ (k, v) :: pairs = (bound ++ [(k, v)]) ++ pairs := by simp
      rw [happend] at h ⊢
      rw [List.map_cons, List.foldl_cons, hadd, ih _ h]

theorem build_of_nodup (shown : κ -> String) (skips : Bool) {pairs : List (κ × ν)}
    (h : (pairs.map Prod.fst).Nodup) :
    build shown skips (pairs.map fun e => Outcome.success (some e)) = .success pairs := by
  have hvalid : forall e, e ∈ pairs.map (fun e => Outcome.success (some e)) ->
      e.errors = ([] : List String) := by
    intro e he
    rcases List.mem_map.mp he with ⟨_, _, rfl⟩
    rfl
  have htally : Tally.ofPairs (pairs.map some) = { bound := pairs } :=
    foldl_add_of_nodup [] h
  have hvalues : (pairs.map fun e => (Outcome.success (some e) : Outcome String _)).map
      Outcome.value = pairs.map some := by
    rw [List.map_map]
    rfl
  rw [build, ListShape.build_of_valid skips hvalid, hvalues]
  simp only [Outcome.andThen, Outcome.success, htally]
  rfl

end Keys

end Mapping

end StyleTokens
