import StyleTokens.Strategy.Args

/-!
# Stored flags

Hyphens in front of a flag do not count where a command line gives it and where it is asked
for.  A flag that is added by itself is stored as it is given, so it is found again exactly
if no hyphen stands in front of it, and all stored flags are normal exactly if all flags
that were added by themselves are.
-/

namespace StyleTokens
namespace Args

/-!
## Hyphens in front
-/

def IsNormal (flag : String) : Prop := flag ≠ "" ∧ flag.toList.head? ≠ some '-'

def hyphens (n : Nat) : String := String.ofList (List.replicate n '-')

theorem toList_dropHyphens (s : String) :
    (dropHyphens s).toList = s.toList.dropWhile fun c => c == '-' := by
  rw [dropHyphens, String.toList_ofList]

theorem head?_dropHyphens (s : String) : (dropHyphens s).toList.head? ≠ some '-' := by
  rw [toList_dropHyphens]
  intro hhead
  have hstop := List.head?_dropWhile_not (fun c => c == '-') s.toList
  rw [hhead] at hstop
  exact absurd hstop (by decide)

theorem dropHyphens_eq_self_iff {s : String} :
    dropHyphens s = s ↔ s.toList.head? ≠ some '-' := by
  constructor
  · intro h
    rw [← h]
    exact head?_dropHyphens s
  · intro h
    rw [← String.toList_inj, toList_dropHyphens]
    cases hcs : s.toList with
    | nil => rfl
    | cons c cs =>
        have hc : (c == '-') = false := by
          rw [hcs, List.head?_cons] at h
          exact beq_eq_false_iff_ne.mpr fun hc => h (congrArg some hc)
        exact List.dropWhile_cons_of_neg (by simp [hc])

theorem dropHyphens_hyphens_append (n : Nat) (s : String) :
    dropHyphens (hyphens n ++ s) = dropHyphens s := by
  rw [← String.toList_inj, toList_dropHyphens, toList_dropHyphens, String.toList_append, hyphens,
    String.toList_ofList]
  induction n with
  | zero => rfl
  | succ n ih => rw [List.replicate_succ, List.cons_append, List.dropWhile_cons_of_pos rfl, ih]

/-!
## What is stored
-/

theorem hasFlag_iff {a : Args} {flag : String} :
    a.hasFlag flag = true ↔ dropHyphens flag ∈ a.flags := by
  rw [hasFlag, List.contains_iff_mem]

theorem mem_withFlag {a : Args} {flag other : String} :
    other ∈ (a.withFlag flag).flags ↔ other ∈ a.flags ∨ other = flag := by
  unfold withFlag
  split
  · rename_i hknown
    have hmem : flag ∈ a.flags := List.contains_iff_mem.mp hknown
    constructor
    · exact Or.inl
    · rintro (h | rfl)
      · exact h
      · exact hmem
  · rw [List.mem_append, List.mem_singleton]

theorem isNormal_of_mem_withSwitch {a : Args} {switch flag : String}
    (h : flag ∈ (a.withSwitch switch).flags) : flag ∈ a.flags ∨ IsNormal flag := by
  simp only [withSwitch] at h
  split at h
  · exact Or.inl h
  · rename_i hsome
    split at h
    · exact Or.inl h
    · rcases mem_withFlag.mp h with hold | rfl
      · exact Or.inl hold
      · exact Or.inr ⟨hsome, head?_dropHyphens _⟩

theorem isNormal_of_mem_foldl {a : Args} {switches : List String} {flag : String}
    (h : flag ∈ (switches.foldl withSwitch a).flags) : flag ∈ a.flags ∨ IsNormal flag := by
  induction switches generalizing a with
  | nil => exact Or.inl h
  | cons switch switches ih =>
      rw [List.foldl_cons] at h
      rcases ih h with hstored | hnormal
      · exact isNormal_of_mem_withSwitch hstored
      · exact Or.inr hnormal

theorem isNormal_of_mem_ofSwitches {switches : List String} {flag : String}
    (h : flag ∈ (ofSwitches switches).flags) : IsNormal flag :=
  (isNormal_of_mem_foldl h).resolve_left List.not_mem_nil

/-- A flag that was added by itself is found, unless hyphens are in front of it: these are
stored, and left out when it is asked for. -/
theorem hasFlag_withFlag_iff {a : Args} {flag : String} :
    (a.withFlag flag).hasFlag flag = true ↔
      flag.toList.head? ≠ some '-' ∨ a.hasFlag flag = true := by
  rw [hasFlag_iff, hasFlag_iff, mem_withFlag, dropHyphens_eq_self_iff]
  exact or_comm

theorem hasFlag_hyphens_append (a : Args) (n : Nat) (flag : String) :
    a.hasFlag (hyphens n ++ flag) = a.hasFlag flag := by
  rw [hasFlag, hasFlag, dropHyphens_hyphens_append]

/-!
## How arguments are made
-/

/-- The ways to make arguments, and to go on from arguments that are made. -/
inductive Construction where
  | ofSwitches (switches : List String)
  | withFlag (c : Construction) (flag : String)
  | withQuoteStrings (c : Construction) (quote : Bool)

namespace Construction

def args : Construction -> Args
  | ofSwitches switches => .ofSwitches switches
  | withFlag c flag => c.args.withFlag flag
  | withQuoteStrings c quote => c.args.withQuoteStrings quote

def added : Construction -> List String
  | ofSwitches _ => []
  | withFlag c flag => flag :: c.added
  | withQuoteStrings c _ => c.added

theorem isNormal_flags_iff (c : Construction) :
    (forall flag, flag ∈ c.args.flags -> IsNormal flag) ↔
      forall flag, flag ∈ c.added -> IsNormal flag := by
  induction c with
  | ofSwitches switches =>
      constructor
      · intro _ flag hnone
        exact absurd hnone List.not_mem_nil
      · intro _ flag hstored
        exact isNormal_of_mem_ofSwitches hstored
  | withFlag c flag ih =>
      simp only [args, added, mem_withFlag, List.forall_mem_cons, or_imp, forall_and, forall_eq, ih]
      exact and_comm
  | withQuoteStrings c quote ih => exact ih

end Construction

/-- However arguments are made, all stored flags are normal exactly if those are that were
added by themselves.  Such a flag is found again exactly if no hyphen is in front of it, or
it was found before; further hyphens in front of what is asked for change nothing. -/
theorem stored_flags_iff (c : Construction) (a : Args) (flag : String) (n : Nat) :
    ((forall other, other ∈ c.args.flags -> IsNormal other) ↔
      forall other, other ∈ c.added -> IsNormal other) ∧
    ((a.withFlag flag).hasFlag flag = true ↔
      flag.toList.head? ≠ some '-' ∨ a.hasFlag flag = true) ∧
    (a.withFlag flag).hasFlag (hyphens n ++ flag) = (a.withFlag flag).hasFlag flag :=
  ⟨c.isNormal_flags_iff, hasFlag_withFlag_iff, hasFlag_hyphens_append _ n flag⟩

/-- A flag that is added with its hyphen is stored with it, and not found. -/
theorem not_stored_flags_hyphen :
    let made := (Construction.withFlag (.ofSwitches []) "-x").args
    dropHyphens "-x" ≠ "" ∧ "-x" ∈ made.flags ∧ ¬ IsNormal "-x" ∧ made.hasFlag "-x" = false ∧
      made.hasFlag (hyphens 1 ++ "-x") = false := by
  refine ⟨by decide, by decide, fun h => h.2 (by decide), by decide, by decide⟩

end Args
end StyleTokens
