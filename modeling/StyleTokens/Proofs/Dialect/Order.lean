import Mathlib.Data.List.Find
import StyleTokens.Proofs.Css.Pass

/-!
# The order of scanners

Where no two scanners of a dialect claim the same text, the first one that claims it is the
only one, in whatever order they stand.  Every pass is then the same in every order, and so
are the tokens of every text.  Style sheets have such scanners.
-/

namespace StyleTokens
namespace Dialect

def Unambiguous (d : Dialect) : Prop :=
  forall cs s s', s ∈ d.scanners -> s' ∈ d.scanners -> s.claims cs = true ->
    s'.claims cs = true -> s = s'

variable {d : Dialect} {ss : List Scanner}

theorem find?_claims_of_perm (hd : d.Unambiguous) (hss : ss.Perm d.scanners) (cs : List Char) :
    (ss.find? fun s => s.claims cs) = d.scanners.find? fun s => s.claims cs := by
  apply List.find?_eq_find?_of_perm hss
  rintro s ⟨hs, hclaims⟩ s' ⟨hs', hclaims'⟩
  exact hd cs s s' (hss.mem_iff.mp hs) (hss.mem_iff.mp hs') hclaims hclaims'

theorem pass_of_perm (hd : d.Unambiguous) (hss : ss.Perm d.scanners) (o : Options) (c : Char)
    (cs : List Char) : ({ d with scanners := ss } : Dialect).pass o c cs = d.pass o c cs := by
  simp only [pass, find?_claims_of_perm hd hss (c :: cs)]
  rfl

theorem tokensFrom_of_perm (hd : d.Unambiguous) (hss : ss.Perm d.scanners) (o : Options)
    (l : Location) (cs : List Char) :
    ({ d with scanners := ss } : Dialect).tokensFrom o l cs = d.tokensFrom o l cs := by
  induction l, cs using tokensFrom.induct d o with
  | case1 l => rw [tokensFrom_nil, tokensFrom_nil]
  | case2 l c cs found ih => rw [tokensFrom_cons, tokensFrom_cons, pass_of_perm hd hss, ih]

theorem tokenize_of_perm (hd : d.Unambiguous) (hss : ss.Perm d.scanners) (o : Options)
    (text : String) :
    ({ d with scanners := ss } : Dialect).tokenize o text = d.tokenize o text :=
  tokensFrom_of_perm hd hss o .start (d.prepare text.toList)

theorem length_filter_claims_le_one (hd : d.Unambiguous) (hnodup : d.scanners.Nodup)
    (cs : List Char) : (d.scanners.filter fun s => s.claims cs).length ≤ 1 := by
  have hclaimed : forall s, s ∈ (d.scanners.filter fun s => s.claims cs) ->
      s ∈ d.scanners ∧ s.claims cs = true := fun s => List.mem_filter.mp
  have hfound := hnodup.filter fun s => s.claims cs
  generalize (d.scanners.filter fun s => s.claims cs) = claimed at hclaimed hfound
  rcases claimed with _ | ⟨s, _ | ⟨s', others⟩⟩
  · exact Nat.zero_le 1
  · exact Nat.le_refl 1
  · rcases hclaimed s List.mem_cons_self with ⟨hs, hc⟩
    rcases hclaimed s' (List.mem_cons_of_mem s List.mem_cons_self) with ⟨hs', hc'⟩
    rw [hd cs s s' hs hs' hc hc'] at hfound
    exact absurd List.mem_cons_self (List.nodup_cons.mp hfound).1

end Dialect

namespace Css

theorem unambiguous : dialect.Unambiguous := by
  intro cs s s' hs hs' hc hc'
  cases cs with
  | nil =>
      -- no scanner claims the end of a text
      have hnone : scanners.all (fun s => !s.claims []) = true := by decide
      have hs := List.all_eq_true.mp hnone s hs
      rw [hc] at hs
      cases hs
  | cons c cs => exact claims_unique hs hs' hc hc'

/-- At every cursor over every text at most one reader of style sheets claims it, and in
every order of the scanners every text has the same tokens. -/
theorem scanners_unambiguous :
    (forall cursor : Cursor,
      (dialect.engine.readers.filter fun r => r.claims cursor).length ≤ 1) ∧
    forall ss : List Scanner, ss.Perm scanners -> forall (o : Options) (text : String),
      ({ dialect with scanners := ss } : Dialect).tokenize o text = tokenize o text := by
  constructor
  · intro cursor
    have hone := Dialect.length_filter_claims_le_one unambiguous (.of_map _ ids_nodup) cursor.rest
    show ((scanners.map Scanner.reader).filter _).length ≤ 1
    rw [List.filter_map, List.length_map]
    exact hone
  · intro ss hss o text
    exact Dialect.tokenize_of_perm unambiguous hss o text

theorem scanners_unambiguous_reverse :
    scanners.reverse.Perm scanners ∧
      (({ dialect with scanners := scanners.reverse } : Dialect).tokenize ⟨8, true⟩
        "-->/**/\\26").map (fun t => t.kind.name) = ["cdc", "comment", "ident", "eof"] := by
  have hreverse : scanners.reverse.Perm scanners := List.reverse_perm scanners
  refine ⟨hreverse, ?_⟩
  rw [scanners_unambiguous.2 scanners.reverse hreverse]
  decide +kernel

end Css
end StyleTokens
