import StyleTokens.Proofs.Structure.Kept
import StyleTokens.Proofs.Structure.Sound

/-!
# Balanced values

A bracket that opens something is never a value: it becomes the block or the call
around the values behind it, also where its end is missing or where it stands too
deep to be read.  And what closes a block or a call is never a value of it.
-/

namespace StyleTokens

namespace Token

def closing? (t : Token) : Option Kind :=
  match t.payload with
  | .block b => some b.closing
  | .call _ => some Css.closeParen
  | _ => none

/-- The token neither ends the text nor opens anything, and it is not closed by one
of its own values. -/
structure Balanced (t : Token) : Prop where
  not_eof : t.isEof = false
  not_opener : forall k, k ∈ Css.openers -> t.is k = false
  not_closed : forall k, t.closing? = some k -> forall u, u ∈ t.values -> u.is k = false

end Token

def AllBalanced (ts : List Token) : Prop :=
  forall t, Within t ts -> t.Balanced

theorem allBalanced_nil : AllBalanced [] := allWithin_nil

theorem AllBalanced.cons {t : Token} {ts : List Token} (ht : t.Balanced)
    (hinside : AllBalanced t.values) (h : AllBalanced ts) : AllBalanced (t :: ts) :=
  AllWithin.cons ht hinside h

theorem AllBalanced.subset {ts us : List Token} (h : AllBalanced us)
    (hsubset : forall t, t ∈ ts -> t ∈ us) : AllBalanced ts :=
  AllWithin.subset h hsubset

theorem AllBalanced.opens?_eq_none {ts : List Token} (h : AllBalanced ts) :
    forall t, t ∈ ts -> t.opens? = none := by
  intro t ht
  exact opens?_eq_none_iff.mpr (h t (.here ht)).not_opener

/-!
## Runs
-/

@[simp] theorem closing?_construct (c : Construct) (values : List Token) (l : Location) :
    (c.token values l).closing? = some c.closing := by
  cases c <;> rfl

theorem Token.IsPlain.closing? {t : Token} (h : t.IsPlain) : t.closing? = none := by
  cases t with
  | mk kind payload location error =>
      cases payload with
      | block b => cases h.1
      | call c => cases h.2
      | _ => rfl

def Css.constructKinds : List Kind := [Css.simpleBlock, Css.functionBlock]

theorem not_is_construct (c : Construct) (values : List Token) (l : Location) {k : Kind}
    (hk : Css.constructKinds.all (fun made => !k.same made) = true) :
    (c.token values l).is k = false := by
  have hdiffers : forall made, made ∈ Css.constructKinds -> made.same k = false := by
    intro made hmem
    rw [Kind.same_comm]
    simpa using List.all_eq_true.mp hk made hmem
  cases c with
  | block opening closing => exact hdiffers Css.simpleBlock (by simp [Css.constructKinds])
  | call name => exact hdiffers Css.functionBlock (by simp [Css.constructKinds])

theorem opens?_construct (c : Construct) (values : List Token) (l : Location) :
    (c.token values l).opens? = none := by
  have hopeners : forall k, k ∈ Css.openers ->
      Css.constructKinds.all (fun made => !k.same made) = true := by
    decide
  apply opens?_eq_none_iff.mpr
  intro k hk
  exact not_is_construct c values l (hopeners k hk)

theorem balanced_construct {c : Construct} {values : List Token} (l : Location)
    (h : forall u, u ∈ values -> u.is c.closing = false) : (c.token values l).Balanced where
  not_eof := not_is_construct c values l (by decide)
  not_opener := opens?_eq_none_iff.mp (opens?_construct c values l)
  not_closed := by
    intro k hk
    rw [closing?_construct] at hk
    rw [values_construct, <- Option.some.inj hk]
    exact h

theorem balanced_single {t : Token} (hplain : t.IsPlain) (heof : t.isEof = false)
    (ho : t.opens? = none) : t.Balanced where
  not_eof := heof
  not_opener := opens?_eq_none_iff.mp ho
  not_closed := by
    intro k hk
    rw [hplain.closing?] at hk
    cases hk

theorem not_is_closing_of_mem_parseRun {n : Nesting} {t : Token} {c : Construct}
    (ho : t.opens? = some c) {ts : List Token} {u : Token}
    (hu : u ∈ (parseRun n c.ends ts).value) : u.is c.closing = false := by
  have hclosing : forall k, k ∈ [Css.closeBrace, Css.closeBracket, Css.closeParen] ->
      Css.constructKinds.all (fun made => !k.same made) = true := by
    decide
  induction ts using parseRun_induction n c.ends with
  | nil =>
      rw [parseRun_of_standsAt (standsAt_nil _)] at hu
      cases hu
  | stopped v ts hv =>
      rw [parseRun_of_standsAt (standsAt_cons ts hv)] at hu
      cases hu
  | value v ts hv ih =>
      rw [parseRun_cons ts hv] at hu
      rcases List.mem_cons.mp hu with rfl | hu
      · cases hopens : v.opens? with
        | none =>
            rw [readComponent_of_opens_none n ts hopens]
            exact (Bool.or_eq_false_iff.mp hv).2
        | some d =>
            -- a construct is not tested by the run; it has a kind of its own
            rw [readComponent_eq_parseContents n ts hopens]
            exact not_is_construct d _ _ (hclosing c.closing (closing_of_opens? ho))
      · exact ih hu

theorem not_is_closing_of_mem_parseContents {n : Nesting} {t : Token} {c : Construct}
    (ho : t.opens? = some c) {l : Location} {ts : List Token} {u : Token}
    (hu : u ∈ (parseContents n c l ts).value) : u.is c.closing = false := by
  rw [parseContents_value] at hu
  split at hu
  · cases hu
  · exact not_is_closing_of_mem_parseRun ho hu

theorem AllBalanced.construct {n : Nesting} {t : Token} {c : Construct}
    (ho : t.opens? = some c) (l : Location) {inside ts : List Token}
    (hinside : AllBalanced (parseContents n c l inside).value) (h : AllBalanced ts) :
    AllBalanced (c.token (parseContents n c l inside).value l :: ts) := by
  apply AllBalanced.cons
  · apply balanced_construct
    intro u hu
    exact not_is_closing_of_mem_parseContents ho hu
  · rw [values_construct]
    exact hinside
  · exact h

theorem allBalanced_contents_of_run {n : Nesting} {c : Construct} {ts : List Token}
    (h : AllBalanced (parseRun n.deeper c.ends ts).value) (l : Location) :
    AllBalanced (parseContents n c l ts).value := by
  rw [parseContents_value]
  split
  · exact allBalanced_nil
  · exact h

/-- What reads plain tokens leaves balanced values. -/
theorem allBalanced_parseRun (n : Nesting) (stop : Predicate) (heof : StopsAtEof stop)
    (ts : List Token) (hplain : forall t, t ∈ ts -> t.IsPlain) :
    AllBalanced (parseRun n stop ts).value := by
  induction n, stop, ts using readRun_induction with
  | nil n stop =>
      rw [parseRun_of_standsAt (standsAt_nil stop)]
      exact allBalanced_nil
  | stopped n stop t ts ht =>
      rw [parseRun_of_standsAt (standsAt_cons ts ht)]
      exact allBalanced_nil
  | single n stop t ts ht ho ih =>
      have htplain : t.IsPlain := hplain t List.mem_cons_self
      rw [parseRun_cons ts ht, readComponent_of_opens_none n ts ho]
      apply AllBalanced.cons
      · exact balanced_single htplain (heof.not_isEof ht) ho
      · rw [htplain.values]
        exact allBalanced_nil
      · exact ih heof fun u hu => hplain u (List.mem_cons_of_mem t hu)
  | nested n stop t ts c ht ho ihinside ih =>
      -- the run inside stops at what closes the construct, so none of it is among the values
      have htail : forall u, u ∈ ts -> u.IsPlain := fun u hu =>
        hplain u (List.mem_cons_of_mem t hu)
      have hsuffix := (readContents n c t.location ts).rest_suffix
      rw [parseRun_cons ts ht, readComponent_eq_parseContents n ts ho]
      apply AllBalanced.construct ho
      · exact allBalanced_contents_of_run (ihinside (stopsAtEof_ends c) htail) t.location
      · exact ih heof fun u hu => htail u (hsuffix.mem hu)

theorem allBalanced_parseContents (n : Nesting) (c : Construct) (l : Location)
    {ts : List Token} (hplain : forall t, t ∈ ts -> t.IsPlain) :
    AllBalanced (parseContents n c l ts).value :=
  allBalanced_contents_of_run
    (allBalanced_parseRun n.deeper c.ends (stopsAtEof_ends c) ts hplain) l

/-!
## Rules
-/

namespace Prelude

theorem allBalanced_readEnd {n : Nesting} {semicolonEnds : Bool} {values : List Token}
    {errors : List StructureError} {input : List Token}
    (hplain : forall t, t ∈ input -> t.IsPlain) {b : Block}
    (h : (readEnd n semicolonEnds values errors input).ending = .block b) :
    AllBalanced [b.toToken] := by
  cases input with
  | nil => cases h
  | cons t ts =>
      simp only [readEnd] at h
      split at h
      · cases h
      · split at h
        · cases h
        · split at h
          · -- the brace was cut as a token, and the block is read behind it
            rename_i hbrace
            rw [block_read_eq_parseContents] at h
            rcases PreludeEnd.block.inj h with rfl
            exact AllBalanced.construct (opens?_of_openBrace hbrace) t.location
              (allBalanced_parseContents n _ t.location fun u hu =>
                hplain u (List.mem_cons_of_mem t hu))
              allBalanced_nil
          · rw [(hplain t List.mem_cons_self).1] at h
            cases h

theorem allBalanced_read (n : Nesting) (semicolonEnds : Bool) (input : List Token)
    (hplain : forall t, t ∈ input -> t.IsPlain) :
    (read n semicolonEnds input).Keeps Token.Balanced where
  values := by
    rw [read_eq_readEnd, readEnd_values]
    exact allBalanced_parseRun n _ (stopsAtEof_ends semicolonEnds) input hplain
  block := by
    intro b hb
    have hsuffix := (readRun n (ends semicolonEnds) input).rest_suffix
    exact allBalanced_readEnd (fun t ht => hplain t (hsuffix.mem ht)) hb

end Prelude

theorem Rule.allBalanced_readAll (n : Nesting) (ts : List Token)
    (hplain : forall t, t ∈ ts -> t.IsPlain) {r : Rule} (hr : r ∈ (readAll n ts).value) :
    AllBalanced r.values :=
  allWithin_readAll_of_prelude (fun hsuffix h t ht => h t (hsuffix.mem ht))
    (Prelude.allBalanced_read n) hplain hr

end StyleTokens
