import StyleTokens.Proofs.Css.Lexeme

/-!
# Values at every depth

A value stands in a run, or inside a block or a call of the run, at any depth.
Tokens that were just cut hold no values.
-/

namespace StyleTokens

/-- The token stands in the run, or inside a block or a call that does. -/
inductive Within (t : Token) : List Token -> Prop where
  | here {ts : List Token} (h : t ∈ ts) : Within t ts
  | inside {u : Token} {ts : List Token} (hu : u ∈ ts) (h : Within t u.values) : Within t ts

theorem not_within_nil {t : Token} : ¬Within t [] := by
  intro h
  cases h with
  | here h => cases h
  | inside hu => cases hu

theorem within_cons {t u : Token} {ts : List Token} :
    Within t (u :: ts) ↔ t = u ∨ Within t u.values ∨ Within t ts := by
  constructor
  · intro h
    cases h with
    | here h =>
        cases List.mem_cons.mp h with
        | inl heq => exact Or.inl heq
        | inr hmem => exact Or.inr (Or.inr (.here hmem))
    | inside hu h =>
        cases List.mem_cons.mp hu with
        | inl heq =>
            subst heq
            exact Or.inr (Or.inl h)
        | inr hmem => exact Or.inr (Or.inr (.inside hmem h))
  · intro h
    rcases h with heq | hinside | hothers
    · exact .here (List.mem_cons.mpr (Or.inl heq))
    · exact .inside List.mem_cons_self hinside
    · cases hothers with
      | here h => exact .here (List.mem_cons_of_mem u h)
      | inside hu h => exact .inside (List.mem_cons_of_mem u hu) h

theorem Within.subset {t : Token} {ts us : List Token} (h : Within t ts)
    (hsubset : forall u, u ∈ ts -> u ∈ us) : Within t us := by
  cases h with
  | here h => exact .here (hsubset t h)
  | inside hu h => exact .inside (hsubset _ hu) h

def AllWithin (P : Token -> Prop) (ts : List Token) : Prop :=
  forall t, Within t ts -> P t

section

variable {P : Token -> Prop}

theorem allWithin_nil : AllWithin P [] := by
  intro t ht
  exact absurd ht not_within_nil

theorem AllWithin.cons {t : Token} {ts : List Token} (ht : P t)
    (hinside : AllWithin P t.values) (h : AllWithin P ts) : AllWithin P (t :: ts) := by
  intro u hu
  rcases within_cons.mp hu with rfl | hu | hu
  · exact ht
  · exact hinside u hu
  · exact h u hu

theorem AllWithin.subset {ts us : List Token} (h : AllWithin P us)
    (hsubset : forall t, t ∈ ts -> t ∈ us) : AllWithin P ts := by
  intro t ht
  exact h t (ht.subset hsubset)

theorem AllWithin.inside {t : Token} {ts : List Token} (h : AllWithin P ts) (ht : t ∈ ts) :
    AllWithin P t.values := by
  intro u hu
  exact h u (.inside ht hu)

theorem AllWithin.append {ts us : List Token} (h : AllWithin P ts) (h' : AllWithin P us) :
    AllWithin P (ts ++ us) := by
  induction ts with
  | nil => exact h'
  | cons t ts ih =>
      apply AllWithin.cons (h t (.here List.mem_cons_self)) (h.inside List.mem_cons_self)
      exact ih (h.subset fun u hu => List.mem_cons_of_mem t hu)

end

@[simp] theorem values_construct (c : Construct) (values : List Token) (l : Location) :
    (c.token values l).values = values := by
  cases c <;> rfl

@[simp] theorem location_construct (c : Construct) (values : List Token) (l : Location) :
    (c.token values l).location = l := by
  cases c <;> rfl

def Token.IsPlain (t : Token) : Prop := t.asBlock? = none ∧ t.asCall? = none

theorem Css.Emitted.isPlain {t : Token} (h : Css.Emitted t) : t.IsPlain :=
  ⟨h.asBlock?_eq_none, h.asCall?_eq_none⟩

theorem Token.IsPlain.values {t : Token} (h : t.IsPlain) : t.values = [] := by
  cases t with
  | mk kind payload location error =>
      cases payload with
      | block b => cases h.1
      | call c => cases h.2
      | _ => rfl

end StyleTokens
