import Mathlib.Data.List.Dedup
import StyleTokens.Kind.Registry

/-!
# First registrations

A registry holds the kinds that were registered, each identity once.  A kind whose identity
is taken is refused and changes nothing, so the first kind of an identity is the one that is
found from then on, whatever is called later.
-/

namespace StyleTokens

namespace Registry

/-!
## What a registry holds
-/

def Known (ks : List Kind) (k : Kind) : Prop := k.identity ∈ ks.map Kind.identity

instance (ks : List Kind) (k : Kind) : Decidable (Known ks k) :=
  inferInstanceAs (Decidable (k.identity ∈ ks.map Kind.identity))

theorem find?_of_not_known {ks : List Kind} {k : Kind} (h : ¬ Known ks k) :
    (ks.find? fun other => other.identity == k.identity) = none := by
  rw [List.find?_eq_none]
  intro other hother hsame
  apply h
  rw [Known, ← eq_of_beq hsame]
  exact List.mem_map_of_mem hother

/-- The registry finds the first of the kinds for every identity, and counts each once. -/
structure Holds (r : Registry) (ks : List Kind) : Prop where
  distinct : (ks.map Kind.identity).Nodup
  get?_eq : forall dialect name,
    r.get? dialect name = ks.find? fun k => k.identity == (dialect, name)
  size_eq : r.size = ks.length

theorem holds_empty : empty.Holds [] where
  distinct := List.nodup_nil
  get?_eq _ _ := rfl
  size_eq := rfl

variable {r : Registry} {ks : List Kind} {k : Kind}

theorem Holds.contains_iff (h : r.Holds ks) : r.contains k = true ↔ Known ks k := by
  rw [contains, h.get?_eq, List.find?_isSome, Known, List.mem_map]
  simp only [beq_iff_eq]
  rfl

theorem Holds.opened (h : r.Holds ks) (dialect : String) : (r.opened dialect).Holds ks where
  distinct := h.distinct
  get?_eq other name := (get?_opened r dialect other name).trans (h.get?_eq other name)
  size_eq := (size_opened r dialect).trans h.size_eq

theorem Holds.place (h : r.Holds ks) (hnew : ¬ Known ks k) : (r.place k).Holds (ks ++ [k]) := by
  have hnone : r.get? k.dialect k.name = none := by
    rw [← Option.isNone_iff_eq_none, ← Option.isSome_eq_false_iff, ← contains]
    exact Bool.eq_false_iff.mpr fun hk => hnew (h.contains_iff.mp hk)
  constructor
  · rw [List.map_append, List.nodup_append]
    refine ⟨h.distinct, List.nodup_singleton _, ?_⟩
    rintro i hi j hj rfl
    rw [List.mem_singleton.mp hj] at hi
    exact hnew hi
  · intro dialect name
    rw [get?_place, h.get?_eq, List.find?_append, List.find?_singleton]
    show (if (k.identity == (dialect, name)) = true then some k else _) = _
    split
    · rename_i hsame
      rw [← eq_of_beq hsame, find?_of_not_known hnew, Option.none_or]
    · rw [Option.or_none]
  · rw [size_place hnone, h.size_eq, List.length_append, List.length_singleton]

theorem Holds.offer (h : r.Holds ks) (hnew : ¬ Known ks k) :
    exists next, r.offer k = (next, none) ∧ next.Holds (ks ++ [k]) := by
  have hfree : r.contains k = false := Bool.eq_false_iff.mpr fun hk => hnew (h.contains_iff.mp hk)
  exact ⟨_, offer_of_not_contains hfree, (h.opened k.dialect).place hnew⟩

theorem Holds.offer_of_known (h : r.Holds ks) (hknown : Known ks k) :
    r.offer k = (r, some (.duplicateKind k.dialect k.name)) :=
  offer_of_contains (h.contains_iff.mpr hknown)

theorem holds_core : core.Holds [.eol, .eof, .unknown] := by
  have heol : (empty.place .eol).Holds [.eol] := holds_empty.place (by decide)
  have heof : ((empty.place .eol).place .eof).Holds [.eol, .eof] := heol.place (by decide)
  exact heof.place (by decide)

/-!
## Calls
-/

/-- A call on a registry. -/
inductive Call where
  | register (k : Kind)
  | registerAll (ks : List Kind)

def answer (r : Registry) : Call -> Registry × Option RegistryError
  | .register k => r.offer k
  | .registerAll ks => r.registerAll ks

def after (r : Registry) (calls : List Call) : Registry :=
  calls.foldl (fun r call => (r.answer call).1) r

def Call.kinds : Call -> List Kind
  | .register k => [k]
  | .registerAll ks => ks

/-- The kinds up to the first one whose identity is taken by a known kind or by one of the
kinds before it. -/
def fresh (known : List Kind) : List Kind -> List Kind
  | [] => []
  | k :: ks => if Known known k then [] else k :: fresh (known ++ [k]) ks

def registered (known : List Kind) (calls : List Call) : List Kind :=
  calls.foldl (fun known call => known ++ fresh known call.kinds) known

theorem fresh_cons_of_known {known : List Kind} (h : Known known k) (ks : List Kind) :
    fresh known (k :: ks) = [] :=
  if_pos h

theorem fresh_cons_of_new {known : List Kind} (h : ¬ Known known k) (ks : List Kind) :
    fresh known (k :: ks) = k :: fresh (known ++ [k]) ks :=
  if_neg h

theorem registerAll_cons (r : Registry) (k : Kind) (ks : List Kind) :
    r.registerAll (k :: ks) =
      match r.offer k with
      | (r, none) => r.registerAll ks
      | (r, some e) => (r, some e) :=
  rfl

/-- Several kinds at once: those up to the first duplicate are registered one by one, and
the duplicate is reported. -/
theorem Holds.registerAll {known : List Kind} (h : r.Holds known) (ks : List Kind) :
    exists left, ks = fresh known ks ++ left ∧
      (r.registerAll ks).1 = r.after ((fresh known ks).map .register) ∧
      (r.registerAll ks).1.Holds (known ++ fresh known ks) ∧
      ((left = [] ∧ (r.registerAll ks).2 = none) ∨
        exists k others, left = k :: others ∧ Known (known ++ fresh known ks) k ∧
          (r.registerAll ks).2 = some (.duplicateKind k.dialect k.name)) := by
  induction ks generalizing r known with
  | nil =>
      refine ⟨[], rfl, rfl, ?_, Or.inl ⟨rfl, rfl⟩⟩
      rw [fresh, List.append_nil]
      exact h
  | cons k ks ih =>
      by_cases hknown : Known known k
      · refine ⟨k :: ks, ?_⟩
        rw [fresh_cons_of_known hknown, registerAll_cons, h.offer_of_known hknown,
          List.append_nil]
        exact ⟨rfl, rfl, h, Or.inr ⟨k, ks, rfl, hknown, rfl⟩⟩
      · rcases h.offer hknown with ⟨next, hoffer, hnext⟩
        rcases ih hnext with ⟨left, hleft, hafter, hholds, herror⟩
        have hfirst : r.after ((k :: fresh (known ++ [k]) ks).map .register) =
            next.after ((fresh (known ++ [k]) ks).map .register) :=
          congrArg (fun pair => after pair.1 _) hoffer
        refine ⟨left, ?_⟩
        rw [fresh_cons_of_new hknown, registerAll_cons, hoffer, hfirst, List.cons_append, ← hleft]
        rw [List.append_assoc] at hholds herror
        exact ⟨rfl, hafter, hholds, herror⟩

theorem Holds.answer {known : List Kind} (h : r.Holds known) (call : Call) :
    (r.answer call).1.Holds (known ++ fresh known call.kinds) := by
  cases call with
  | register k =>
      by_cases hknown : Known known k
      · rw [Call.kinds, fresh_cons_of_known hknown, List.append_nil, Registry.answer,
          h.offer_of_known hknown]
        exact h
      · rcases h.offer hknown with ⟨next, hoffer, hnext⟩
        rw [Call.kinds, fresh_cons_of_new hknown, Registry.answer, hoffer]
        exact hnext
  | registerAll ks =>
      rcases h.registerAll ks with ⟨left, -, -, hholds, -⟩
      exact hholds

theorem Holds.after {known : List Kind} (h : r.Holds known) (calls : List Call) :
    (r.after calls).Holds (registered known calls) := by
  induction calls generalizing r known with
  | nil => exact h
  | cons call calls ih => exact ih (h.answer call)

theorem prefix_registered (known : List Kind) (calls : List Call) :
    known <+: registered known calls := by
  induction calls generalizing known with
  | nil => exact List.prefix_refl known
  | cons call calls ih => exact (List.prefix_append known _).trans (ih _)

theorem Holds.get?_after {known : List Kind} (h : r.Holds known) (calls : List Call)
    {dialect name : String} (hfound : r.get? dialect name = some k) :
    (r.after calls).get? dialect name = some k := by
  rcases prefix_registered known calls with ⟨later, hlater⟩
  rw [h.get?_eq] at hfound
  rw [(h.after calls).get?_eq, ← hlater, List.find?_append, hfound, Option.some_or]

/-!
## The first registration
-/

/-- The registry keeps the first kind of each identity, where `known` are the kinds that were
registered, in their order. -/
structure KeepsFirst (r : Registry) (known : List Kind) : Prop where
  /-- A look-up finds the kind of the identity that was registered first. -/
  finds : forall dialect name,
    r.get? dialect name = known.find? fun k => k.identity == (dialect, name)
  /-- Whatever is called later finds it again. -/
  stays : forall calls dialect name k, r.get? dialect name = some k ->
    (r.after calls).get? dialect name = some k
  /-- Every identity counts once. -/
  counts : r.size = (known.map Kind.identity).dedup.length
  /-- A kind of a known identity is refused, and the registry is the same as before. -/
  refuses : forall k, Known known k ->
    r.offer k = (r, some (.duplicateKind k.dialect k.name)) ∧
      r.register k = .error (.duplicateKind k.dialect k.name)
  /-- A kind of a new identity is registered. -/
  accepts : forall k, ¬ Known known k ->
    exists next, r.offer k = (next, none) ∧ r.register k = .ok next ∧
      next.get? k.dialect k.name = some k
  /-- Of several kinds those in front of the first duplicate are registered, as if they came
  one by one, and the duplicate is reported. -/
  stops : forall ks, exists front left, ks = front ++ left ∧
    ((known ++ front).map Kind.identity).Nodup ∧
    (r.registerAll ks).1 = r.after (front.map .register) ∧
    ((left = [] ∧ (r.registerAll ks).2 = none) ∨
      exists k others, left = k :: others ∧ Known (known ++ front) k ∧
        (r.registerAll ks).2 = some (.duplicateKind k.dialect k.name))

theorem Holds.keepsFirst {known : List Kind} (h : r.Holds known) : r.KeepsFirst known where
  finds := h.get?_eq
  stays calls _ _ _ hfound := h.get?_after calls hfound
  counts := by rw [h.distinct.dedup, List.length_map, h.size_eq]
  refuses k hknown :=
    ⟨h.offer_of_known hknown, register_of_offer_error (h.offer_of_known hknown)⟩
  accepts k hnew := by
    rcases h.offer hnew with ⟨next, hoffer, hnext⟩
    refine ⟨next, hoffer, register_of_offer_ok hoffer, ?_⟩
    rw [hnext.get?_eq, List.find?_append]
    show (known.find? fun other => other.identity == k.identity).or _ = some k
    rw [find?_of_not_known hnew, Option.none_or]
    exact List.find?_cons_of_pos (beq_self_eq_true k.identity)
  stops ks := by
    rcases h.registerAll ks with ⟨left, hleft, hafter, hholds, herror⟩
    exact ⟨fresh known ks, left, hleft, hholds.distinct, hafter, herror⟩

/-- Whatever calls are made on an empty registry, or on one with the shared kinds, it keeps
the first kind of each identity. -/
theorem after_keepsFirst {start : Registry} {shared : List Kind}
    (hstart : (start = .empty ∧ shared = []) ∨ (start = .core ∧ shared = [.eol, .eof, .unknown]))
    (calls : List Call) : (start.after calls).KeepsFirst (registered shared calls) := by
  rcases hstart with ⟨rfl, rfl⟩ | ⟨rfl, rfl⟩
  · exact (holds_empty.after calls).keepsFirst
  · exact (holds_core.after calls).keepsFirst

/-- Several kinds at once that stop at a shared kind, then a kind of a known identity, and
then one that was left out before. -/
theorem after_keepsFirst_repeated :
    let first : Kind := { dialect := "test", name := "a", blank := true }
    let again : Kind := { dialect := "test", name := "a", faulty := true }
    let other : Kind := { dialect := "other", name := "a" }
    let calls := [.registerAll [first, .eof, other], .register again, .register other]
    let last := core.after calls
    last.KeepsFirst (registered [.eol, .eof, .unknown] calls) ∧
      last.get? "test" "a" = some first ∧ last.size = 5 := by
  intro first again other calls last
  have hkeeps : last.KeepsFirst (registered [.eol, .eof, .unknown] calls) :=
    after_keepsFirst (Or.inr ⟨rfl, rfl⟩) calls
  have hregistered : registered [.eol, .eof, .unknown] calls =
      [.eol, .eof, .unknown, first, other] := rfl
  rw [hregistered] at hkeeps ⊢
  refine ⟨hkeeps, ?_, ?_⟩
  · rw [hkeeps.finds]
    rfl
  · rw [hkeeps.counts]
    decide

end Registry
end StyleTokens
