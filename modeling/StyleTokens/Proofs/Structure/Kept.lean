import StyleTokens.Proofs.Structure.SettledRule
import StyleTokens.Proofs.Structure.Within

/-!
# What reading keeps

Reading makes tokens of its own, the blocks and the calls, and otherwise only moves
tokens around.  What holds of every block and of every call that can be made, and of
every token that is read, holds therefore of all values at all depths: those of a run,
and those of a rule.  For a list of rules it is enough to know what the preludes keep.
-/

namespace StyleTokens

/-!
## Parts of what was read
-/

theorem parseContents_value (n : Nesting) (c : Construct) (l : Location) (ts : List Token) :
    (parseContents n c l ts).value =
      if n.isFull then [] else (parseRun n.deeper c.ends ts).value := by
  cases hfull : n.isFull with
  | true =>
      rw [parseContents_of_full hfull]
      rfl
  | false =>
      rw [parseContents_of_not_full hfull, Parsed.closedBy]
      split
      · rfl
      · split <;> rfl

theorem Prelude.readEnd_values (n : Nesting) (semicolonEnds : Bool) (values : List Token)
    (errors : List StructureError) (input : List Token) :
    (readEnd n semicolonEnds values errors input).values = values := by
  unfold readEnd
  split
  · rfl
  · split
    · rfl
    · split
      · rfl
      · split
        · rfl
        · split <;> rfl

theorem Queue.mem_of_mem_trim {ts : List Token} {t : Token} (h : t ∈ Queue.trim ts) : t ∈ ts := by
  have hend : t ∈ Queue.trimEnd ts := (List.dropWhile_suffix _).mem h
  rw [Queue.trimEnd, List.mem_reverse] at hend
  exact List.mem_reverse.mp ((List.dropWhile_suffix _).mem hend)

theorem Token.values_of_asBlock? {t : Token} {b : Block} (h : t.asBlock? = some b) :
    t.values = b.values := by
  cases t with
  | mk kind payload location error =>
      cases payload with
      | block c =>
          rcases Option.some.inj h with rfl
          rfl
      | _ => cases h

/-!
## From preludes to rules
-/

/-- The values of the prelude and the block behind it pass the test at every depth. -/
structure Prelude.Keeps (P : Token -> Prop) (p : Prelude) : Prop where
  values : AllWithin P p.values
  block : forall b, p.ending = .block b -> AllWithin P [b.toToken]

namespace Rule

def values : Rule -> List Token
  | qualified r => r.prelude ++ [r.block.toToken]
  | named r => r.prelude ++ r.block.toList.map Block.toToken
  | unknown _ => []

section

variable {P : Token -> Prop} {n : Nesting}

theorem allWithin_readNamed {name : String} {l : Location} {input : List Token}
    (h : (Prelude.read n true input).Keeps P) :
    AllWithin P (readNamed n name l input).value.values := by
  have hprelude := h.values.subset fun t ht => Queue.mem_of_mem_trim ht
  simp only [readNamed]
  split
  · rename_i b hend
    exact hprelude.append (h.block b hend)
  · exact hprelude.append allWithin_nil
  · exact allWithin_nil

theorem allWithin_readQualified {input : List Token}
    (h : (Prelude.read n false input).Keeps P) :
    AllWithin P (readQualified n input).value.values := by
  have hprelude := h.values.subset fun t ht => Queue.mem_of_mem_trim ht
  simp only [readQualified]
  split
  · rename_i b hend
    exact hprelude.append (h.block b hend)
  · exact allWithin_nil

variable {Good : List Token -> Prop} (hsuffix : forall {ts us}, ts <:+ us -> Good us -> Good ts)
variable (hprelude : forall semicolonEnds ts, Good ts -> (Prelude.read n semicolonEnds ts).Keeps P)
include hsuffix hprelude

theorem allWithin_read_of_prelude {t : Token} {ts : List Token} (h : Good (t :: ts)) :
    AllWithin P (read n t ts).value.values := by
  cases hat : t.is Css.atKeyword with
  | true =>
      rw [read_of_atKeyword n hat]
      exact allWithin_readNamed (hprelude true ts (hsuffix (List.suffix_cons t ts) h))
  | false =>
      rw [read_of_not_atKeyword n hat]
      exact allWithin_readQualified (hprelude false (t :: ts) h)

theorem allWithin_readAll_of_prelude {ts : List Token} (h : Good ts) {r : Rule}
    (hr : r ∈ (readAll n ts).value) : AllWithin P r.values := by
  induction ts using readAll.induct n with
  | case1 =>
      rw [readAll] at hr
      cases hr
  | case2 t ts heof =>
      rw [readAll_of_isEof n ts heof] at hr
      cases hr
  | case3 t ts heof hskip ih =>
      rw [readAll_of_isSkipped n ts (by simpa using heof) hskip] at hr
      exact ih (hsuffix (List.suffix_cons t ts) h) hr
  | case4 t ts heof hskip first ih =>
      have ht : t.isEof = false := by simpa using heof
      have hrest := (read_rest_suffix n ts ht).trans (List.suffix_cons t ts)
      rw [readAll_cons n ts ht (by simpa using hskip)] at hr
      rcases List.mem_cons.mp hr with rfl | hr
      · exact allWithin_read_of_prelude hsuffix hprelude h
      · exact ih (hsuffix hrest h) hr

end

end Rule

/-!
## What holds of every construct
-/

section

variable {P : Token -> Prop} (hmade : forall c values l, P (Construct.token c values l))
include hmade

theorem AllWithin.construct (c : Construct) (l : Location) {values : List Token}
    (h : AllWithin P values) : AllWithin P [c.token values l] := by
  apply AllWithin.cons (hmade c values l)
  · rw [values_construct]
    exact h
  · exact allWithin_nil

theorem AllWithin.toToken (b : Block) (h : AllWithin P b.values) : AllWithin P [b.toToken] := by
  cases b with
  | mk opening closing values location =>
      exact AllWithin.construct hmade (.block opening closing) location h

theorem allWithin_parseRun (n : Nesting) (stop : Predicate) (ts : List Token)
    (h : AllWithin P ts) : AllWithin P (parseRun n stop ts).value := by
  induction n, stop, ts using readRun_induction with
  | nil n stop =>
      rw [parseRun_of_standsAt (standsAt_nil stop)]
      exact allWithin_nil
  | stopped n stop t ts ht =>
      rw [parseRun_of_standsAt (standsAt_cons ts ht)]
      exact allWithin_nil
  | single n stop t ts ht ho ih =>
      rw [parseRun_cons ts ht, readComponent_of_opens_none n ts ho]
      apply AllWithin.cons (h t (.here List.mem_cons_self)) (h.inside List.mem_cons_self)
      exact ih (h.subset fun u hu => List.mem_cons_of_mem t hu)
  | nested n stop t ts c ht ho ihinside ih =>
      have htail : AllWithin P ts := h.subset fun u hu => List.mem_cons_of_mem t hu
      have hsuffix := (readContents n c t.location ts).rest_suffix
      have hcontents : AllWithin P (parseContents n c t.location ts).value := by
        rw [parseContents_value]
        split
        · exact allWithin_nil
        · exact ihinside htail
      rw [parseRun_cons ts ht, readComponent_eq_parseContents n ts ho]
      exact (AllWithin.construct hmade c t.location hcontents).append
        (ih (htail.subset fun u hu => hsuffix.mem hu))

theorem allWithin_parseContents (n : Nesting) (c : Construct) (l : Location) {ts : List Token}
    (h : AllWithin P ts) : AllWithin P (parseContents n c l ts).value := by
  rw [parseContents_value]
  split
  · exact allWithin_nil
  · exact allWithin_parseRun hmade n.deeper c.ends ts h

namespace Prelude

theorem allWithin_readEnd {n : Nesting} {semicolonEnds : Bool} {values : List Token}
    {errors : List StructureError} {input : List Token} (h : AllWithin P input) {b : Block}
    (hend : (readEnd n semicolonEnds values errors input).ending = .block b) :
    AllWithin P [b.toToken] := by
  apply AllWithin.toToken hmade
  cases input with
  | nil => cases hend
  | cons t ts =>
      simp only [readEnd] at hend
      split at hend
      · cases hend
      · split at hend
        · cases hend
        · split at hend
          · rw [block_read_eq_parseContents] at hend
            rcases PreludeEnd.block.inj hend with rfl
            exact allWithin_parseContents hmade n _ t.location
              (h.subset fun u hu => List.mem_cons_of_mem t hu)
          · -- the block was read before, and its values are those of the token
            cases hread : t.asBlock? with
            | none =>
                rw [hread] at hend
                cases hend
            | some c =>
                rw [hread] at hend
                rcases PreludeEnd.block.inj hend with rfl
                rw [← Token.values_of_asBlock? hread]
                exact h.inside List.mem_cons_self

theorem keeps_read (n : Nesting) (semicolonEnds : Bool) (input : List Token)
    (h : AllWithin P input) : (read n semicolonEnds input).Keeps P where
  values := by
    rw [read_eq_readEnd, readEnd_values]
    exact allWithin_parseRun hmade n _ input h
  block := by
    intro b hend
    have hsuffix := (readRun n (ends semicolonEnds) input).rest_suffix
    exact allWithin_readEnd hmade (h.subset fun t ht => hsuffix.mem ht) hend

end Prelude

namespace Rule

theorem allWithin_read (n : Nesting) {t : Token} {ts : List Token}
    (h : AllWithin P (t :: ts)) : AllWithin P (read n t ts).value.values :=
  allWithin_read_of_prelude (fun hsuffix h => h.subset fun _ ht => hsuffix.mem ht)
    (Prelude.keeps_read hmade n) h

theorem allWithin_readAll (n : Nesting) {ts : List Token} (h : AllWithin P ts) {r : Rule}
    (hr : r ∈ (readAll n ts).value) : AllWithin P r.values :=
  allWithin_readAll_of_prelude (fun hsuffix h => h.subset fun _ ht => hsuffix.mem ht)
    (Prelude.keeps_read hmade n) h hr

end Rule

end

end StyleTokens
