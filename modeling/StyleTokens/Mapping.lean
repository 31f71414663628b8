/-!
# Mappings

A mapping is a list of pairs in which every key counts once.  The last value of a
key wins, at the place where the key came first.
-/

namespace StyleTokens

/-- Keys with their values, every key once. -/
abbrev Mapping (κ ν : Type) := List (κ × ν)

namespace Mapping

def get? [BEq κ] (m : Mapping κ ν) (k : κ) : Option ν := (m.find? fun e => e.1 == k).map Prod.snd

def hasKey [BEq κ] (m : Mapping κ ν) (k : κ) : Bool := m.any fun e => e.1 == k

/-- Bind a key.  A key that is bound already keeps its place. -/
def insert [BEq κ] (m : Mapping κ ν) (k : κ) (v : ν) : Mapping κ ν :=
  match m with
  | [] => [(k, v)]
  | (k', v') :: m => if k' == k then (k', v) :: m else (k', v') :: insert m k v

section Binding

variable {κ ν : Type} [BEq κ]

theorem get?_cons (e : κ × ν) (m : Mapping κ ν) (k : κ) :
    get? (e :: m) k = if e.1 == k then some e.2 else m.get? k := by
  rw [get?, List.find?_cons]
  cases e.1 == k <;> rfl

theorem hasKey_cons (e : κ × ν) (m : Mapping κ ν) (k : κ) :
    hasKey (e :: m) k = (e.1 == k || m.hasKey k) :=
  List.any_cons

theorem hasKey_eq_isSome (m : Mapping κ ν) (k : κ) : m.hasKey k = (m.get? k).isSome := by
  induction m with
  | nil => rfl
  | cons e m ih =>
      rw [hasKey_cons, get?_cons, ih]
      cases e.1 == k <;> rfl

theorem insert_of_not_hasKey {m : Mapping κ ν} {k : κ} (h : m.hasKey k = false) (v : ν) :
    m.insert k v = m ++ [(k, v)] := by
  induction m with
  | nil => rfl
  | cons e m ih =>
      rw [hasKey_cons, Bool.or_eq_false_iff] at h
      rw [insert, if_neg (by simp [h.1]), ih h.2, List.cons_append]

theorem length_flatMap_insert {α : Type} (m : Mapping κ (List α)) (k : κ) (v : List α) :
    ((m.insert k v).flatMap Prod.snd).length + ((m.get? k).getD []).length =
      (m.flatMap Prod.snd).length + v.length := by
  induction m with
  | nil => exact congrArg List.length (List.append_nil v) |>.trans (Nat.zero_add _).symm
  | cons e m ih =>
      rcases e with ⟨k', v'⟩
      rw [insert, get?_cons]
      cases k' == k with
      | true =>
          simp only [if_true, List.flatMap_cons, List.length_append, Option.getD_some]
          omega
      | false =>
          simp only [Bool.false_eq_true, if_false, List.flatMap_cons, List.length_append]
          omega

variable [LawfulBEq κ]

theorem hasKey_iff {m : Mapping κ ν} {k : κ} : m.hasKey k = true ↔ k ∈ m.map Prod.fst := by
  rw [hasKey, List.any_eq_true, List.mem_map]
  simp only [beq_iff_eq]

theorem mem_map_fst_insert {m : Mapping κ ν} {k j : κ} {v : ν} :
    j ∈ (m.insert k v).map Prod.fst ↔ j ∈ m.map Prod.fst ∨ j = k := by
  induction m with
  | nil => simp [insert]
  | cons e m ih =>
      rcases e with ⟨k', v'⟩
      rw [insert]
      split
      · rename_i hkey
        rw [List.map_cons, List.map_cons, List.mem_cons, eq_of_beq hkey, or_right_comm, or_self]
      · rw [List.map_cons, List.mem_cons, ih, List.map_cons, List.mem_cons, or_assoc]

theorem nodup_insert {m : Mapping κ ν} (h : (m.map Prod.fst).Nodup) (k : κ) (v : ν) :
    ((m.insert k v).map Prod.fst).Nodup := by
  induction m with
  | nil => exact List.nodup_cons.mpr ⟨List.not_mem_nil, List.nodup_nil⟩
  | cons e m ih =>
      rcases e with ⟨k', v'⟩
      rw [List.map_cons, List.nodup_cons] at h
      rw [insert]
      split
      · exact List.nodup_cons.mpr h
      · rename_i hkey
        rw [List.map_cons, List.nodup_cons, mem_map_fst_insert, not_or]
        exact ⟨⟨h.1, fun heq => hkey (beq_iff_eq.mpr heq)⟩, ih h.2⟩

theorem get?_insert (m : Mapping κ ν) (k j : κ) (v : ν) :
    (m.insert k v).get? j = if k == j then some v else m.get? j := by
  induction m with
  | nil => exact get?_cons (k, v) [] j
  | cons e m ih =>
      rcases e with ⟨k', v'⟩
      rw [insert]
      split
      · rename_i hkey
        rw [get?_cons, get?_cons, eq_of_beq hkey]
        split <;> rfl
      · rename_i hkey
        rw [get?_cons, ih, get?_cons]
        by_cases hj : (k' == j) = true
        · have hne : ¬(k == j) = true := by
            intro hk
            rw [← eq_of_beq hk] at hj
            exact hkey hj
          rw [if_pos hj, if_neg hne, if_pos hj]
        · rw [if_neg hj, if_neg hj]

end Binding

end Mapping

end StyleTokens
