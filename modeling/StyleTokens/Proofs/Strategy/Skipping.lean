import Mathlib.Data.List.Forall2
import StyleTokens.Strategy.Listing

/-!
# Lists that skip faulty elements

Whether faulty elements are left out is looked at when the values are collected, and
nowhere before: the cuts, the elements and the queue behind the list are the same.  What
differs is which values are kept and how the error of an element is worded.
-/

namespace StyleTokens

namespace StrategyError

def isEntryAt (i : Nat) : StrategyError -> Bool
  | listEntry j _ => i == j
  | _ => false

/-- The error in a list that skips faulty elements: reworded if it is about an element, and
the same if not. -/
def SkipsAs (e e' : StrategyError) : Prop :=
  (exists i messages, e = .listEntry i messages ∧ e' = .skippedEntry i messages ∧
    e'.message = e.message ++ ", skipping entry") ∨
    (e' = e ∧ forall i, e.isEntryAt i = false)

theorem skipsAs_entry (i : Nat) (messages : List String) :
    SkipsAs (.listEntry i messages) (.skippedEntry i messages) :=
  Or.inl ⟨i, messages, rfl, rfl, rfl⟩

end StrategyError

namespace ListShape

def skips (s : ListShape) (b : Bool) : ListShape := { s with skipsFaulty := b }

/-!
## The cuts
-/

section Cut

variable (s : ListShape)

theorem cut_skips (b : Bool) (start : Location) (input : List Token) :
    (s.skips b).cut start input = s.cut start input := by
  -- no step of the recursion looks at the flag, so that both are the same fixed point
  delta cut
  rfl

theorem segments_skips (b : Bool) (input : List Token) :
    (s.skips b).segments input = s.segments input := by
  unfold segments
  simp only [cut_skips]
  rfl

theorem eq_of_mem_ite {p : Bool} {e e' : StrategyError} (h : e ∈ if p then [e'] else []) :
    e = e' := by
  split at h
  · exact List.mem_singleton.mp h
  · cases h

theorem not_isEntryAt_unclosed {start : Location} {e : StrategyError} (h : e ∈ s.unclosed start)
    (i : Nat) : e.isEntryAt i = false := by
  rw [eq_of_mem_ite h]
  rfl

theorem not_isEntryAt_cut {start : Location} {input : List Token} {e : StrategyError}
    (h : e ∈ (s.cut start input).errors) (i : Nat) : e.isEntryAt i = false := by
  fun_induction cut s start input with
  | case1 => exact s.not_isEntryAt_unclosed h i
  | case2 _ _ _ ih => exact ih h
  | case3 => cases h
  | case4 | case5 =>
      rw [eq_of_mem_ite h]
      rfl
  | case6 => exact s.not_isEntryAt_unclosed h i
  | case7 _ _ _ _ _ _ ih => exact ih h

theorem not_isEntryAt_segments {input : List Token} {e : StrategyError}
    (h : e ∈ (s.segments input).errors) (i : Nat) : e.isEntryAt i = false := by
  unfold segments at h
  split at h
  · rw [List.mem_singleton.mp h]
    rfl
  · rename_i t ts
    split at h
    · exact s.not_isEntryAt_cut h i
    · split at h
      · have hcut : e ∈ (s.cut t.location ts).errors := h
        exact s.not_isEntryAt_cut hcut i
      · rw [List.mem_singleton.mp h]
        rfl

end Cut

/-!
## The values
-/

section Entries

variable {α : Type}

theorem entryErrors_eq_map (b : Bool) (k : Nat) (entries : List (Outcome String α)) :
    entryErrors b k entries =
      ((entries.zipIdx k).filter fun e => e.1.isError).map fun e =>
        entryError b e.2 e.1.errors := by
  induction entries generalizing k with
  | nil => rfl
  | cons entry entries ih =>
      rw [entryErrors, List.zipIdx_cons, List.filter_cons, ih]
      split <;> rfl

theorem mem_entryErrors {entries : List (Outcome String α)} {e : StrategyError} :
    e ∈ entryErrors false 0 entries ↔
      exists i entry, entries[i]? = some entry ∧ entry.isError = true ∧
        e = .listEntry i entry.errors := by
  rw [entryErrors_eq_map, List.mem_map]
  constructor
  · rintro ⟨⟨entry, i⟩, hmem, rfl⟩
    rw [List.mem_filter, List.mem_zipIdx_iff_getElem?] at hmem
    exact ⟨i, entry, hmem.1, hmem.2, rfl⟩
  · rintro ⟨i, entry, hentry, hfaulty, rfl⟩
    refine ⟨(entry, i), ?_, rfl⟩
    rw [List.mem_filter, List.mem_zipIdx_iff_getElem?]
    exact ⟨hentry, hfaulty⟩

theorem skipsAs_entryErrors (entries : List (Outcome String α)) :
    List.Forall₂ StrategyError.SkipsAs (entryErrors false 0 entries)
      (entryErrors true 0 entries) := by
  rw [entryErrors_eq_map, entryErrors_eq_map, List.forall₂_map_left_iff,
    List.forall₂_map_right_iff, List.forall₂_same]
  exact fun e _ => StrategyError.skipsAs_entry e.2 e.1.errors

/-- The members of a list that pass a test are those at the places where it is passed. -/
theorem map_filter_eq_range (p : α -> Bool) (f : α -> β) (as : List α) :
    ((as.filter p).map f).map some =
      ((List.range as.length).filter fun i => as[i]?.any p).map fun i => (as.map f)[i]? := by
  induction as with
  | nil => rfl
  | cons a as ih =>
      rw [List.length_cons, List.range_succ_eq_map, List.filter_cons, List.filter_cons,
        List.filter_map]
      have htail : (((List.range as.length).filter ((fun i => (a :: as)[i]?.any p) ∘ Nat.succ)).map
          Nat.succ).map (fun i => ((a :: as).map f)[i]?) = ((as.filter p).map f).map some := by
        rw [List.map_map]
        exact ih.symm
      have hfirst : (a :: as)[0]?.any p = p a := rfl
      rw [hfirst]
      cases p a with
      | true =>
          rw [if_pos rfl, if_pos rfl, List.map_cons, List.map_cons, List.map_cons, htail]
          rfl
      | false => rw [if_neg Bool.false_ne_true, if_neg Bool.false_ne_true, htail]

end Entries

end ListShape

/-!
## The two runs
-/

theorem Outcome.isValid_worded {α : Type} (entry : Outcome StrategyError α) :
    entry.worded.isValid = entry.isValid := by
  simp [Outcome.worded, Outcome.mapErrors, Outcome.isValid]

theorem Outcome.isError_worded {α : Type} (entry : Outcome StrategyError α) :
    entry.worded.isError = entry.isError :=
  congrArg not entry.isValid_worded

namespace Strategy

variable {α : Type}

/-- What a list that skips faulty elements has in common with the one that keeps them. -/
structure SkipsOnlyFaulty {input : List Token} (entries : List (Outcome StrategyError α))
    (plain skipping : Reading (List α) input) : Prop where
  rest : skipping.rest = plain.rest
  plain_value : plain.value = entries.map Outcome.value
  faulty_iff : forall i, plain.errors.any (StrategyError.isEntryAt i) = true ↔
    exists entry, entries[i]? = some entry ∧ entry.isError = true
  value : skipping.value.map some =
    ((List.range plain.value.length).filter fun i =>
      !plain.errors.any (StrategyError.isEntryAt i)).map fun i => plain.value[i]?
  errors : List.Forall₂ StrategyError.SkipsAs plain.errors skipping.errors

theorem entries_skips (element : Strategy α) (shape : ListShape) (b : Bool) (args : Args)
    (failed : Bool) (input : List Token) :
    element.entries (shape.skips b) args failed input =
      element.entries shape args failed input := by
  rw [entries, entries, ListShape.segments_skips]

section Runs

variable (element : Strategy α) (shape : ListShape) (args : Args) (failed : Bool)
  (input : List Token)

theorem value_list_skips (b : Bool) :
    ((element.list (shape.skips b)).read args failed input).value =
      (ListShape.kept b ((element.entries shape args failed input).value.map
        Outcome.worded)).map Outcome.value := by
  rw [← element.entries_skips shape b]
  rfl

theorem errors_list_skips (b : Bool) :
    ((element.list (shape.skips b)).read args failed input).errors =
      (shape.segments input).errors ++
        ListShape.entryErrors b 0 ((element.entries shape args failed input).value.map
          Outcome.worded) := by
  rw [← element.entries_skips shape b, ← shape.segments_skips b]
  rfl

theorem rest_list_skips (b : Bool) :
    ((element.list (shape.skips b)).read args failed input).rest = (shape.segments input).rest := by
  rw [← shape.segments_skips b]
  rfl

theorem any_isEntryAt_iff (i : Nat) :
    ((element.list (shape.skips false)).read args failed input).errors.any
        (StrategyError.isEntryAt i) = true ↔
      exists entry, (element.entries shape args failed input).value[i]? = some entry ∧
        entry.isError = true := by
  have hcuts : (shape.segments input).errors.any (StrategyError.isEntryAt i) = false := by
    rw [List.any_eq_false]
    intro e he
    rw [shape.not_isEntryAt_segments he i]
    exact Bool.false_ne_true
  rw [errors_list_skips, List.any_append, hcuts, Bool.false_or, List.any_eq_true]
  constructor
  · rintro ⟨e, he, hplace⟩
    rcases ListShape.mem_entryErrors.mp he with ⟨j, x, hx, hfaulty, rfl⟩
    obtain rfl : i = j := eq_of_beq hplace
    rw [List.getElem?_map, Option.map_eq_some_iff] at hx
    rcases hx with ⟨entry, hentry, rfl⟩
    exact ⟨entry, hentry, entry.isError_worded ▸ hfaulty⟩
  · rintro ⟨entry, hentry, hfaulty⟩
    refine ⟨_, ListShape.mem_entryErrors.mpr
      ⟨i, entry.worded, ?_, entry.isError_worded.trans hfaulty, rfl⟩, ?_⟩
    · rw [List.getElem?_map, hentry]
      rfl
    · exact beq_self_eq_true i

end Runs

/-- The flag changes which values are kept and the words for the elements left out, and
nothing else. -/
theorem list_skipsOnlyFaulty (element : Strategy α) (shape : ListShape) (args : Args)
    (failed : Bool) (input : List Token) :
    SkipsOnlyFaulty (element.entries shape args failed input).value
      ((element.list (shape.skips false)).read args failed input)
      ((element.list (shape.skips true)).read args failed input) := by
  have hplain : ((element.list (shape.skips false)).read args failed input).value =
      ((element.entries shape args failed input).value.map Outcome.worded).map Outcome.value :=
    value_list_skips element shape args failed input false
  have hfaulty := any_isEntryAt_iff element shape args failed input
  refine ⟨?_, ?_, hfaulty, ?_, ?_⟩
  · rw [rest_list_skips, rest_list_skips]
  · rw [hplain]
    exact List.map_map
  · rw [value_list_skips, hplain, List.length_map, List.length_map]
    refine (ListShape.map_filter_eq_range Outcome.isValid _ _).trans (congrArg (List.map _) ?_)
    rw [List.length_map]
    refine List.filter_congr fun i hi => ?_
    have hentry := List.getElem?_eq_getElem (List.mem_range.mp hi)
    rw [List.getElem?_map, hentry, Bool.eq_iff_iff, Bool.not_eq_true', ← Bool.not_eq_true,
      hfaulty i, hentry, Option.map_some, Option.any_some, Outcome.isValid_worded]
    simp [Outcome.isError]
  · rw [errors_list_skips, errors_list_skips]
    refine List.rel_append (List.forall₂_same.mpr ?_) (ListShape.skipsAs_entryErrors _)
    intro e he
    exact Or.inr ⟨rfl, shape.not_isEntryAt_segments he⟩

end Strategy

end StyleTokens
