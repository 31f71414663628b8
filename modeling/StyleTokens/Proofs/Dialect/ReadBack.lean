import StyleTokens.Proofs.Css.ReadBack.Token

/-!
# Runs that are read back token by token

A written token is read back in front of a text if one pass emits it and stops
where that text starts.  A run all of whose tokens are read back in front of the
tokens behind them keeps its kinds and values when it is written and cut again.
-/

namespace StyleTokens

theorem Token.eq_of_unplaced {t : Token} {k : Kind} {p : Payload} (hp : forall u, p ≠ .inner u)
    (h : t.unplaced = .of k p) : exists l, t = ⟨k, p, l, none⟩ := by
  rcases t with ⟨kind, payload, location, error⟩
  obtain rfl : kind = k := congrArg Token.kind h
  obtain rfl : error = none := congrArg Token.error h
  have hpayload : payload.placed .unknown = p := congrArg Token.payload h
  refine ⟨location, ?_⟩
  cases payload with
  | inner u => exact absurd hpayload.symm (hp _)
  | _ => rw [← hpayload]; rfl

namespace Dialect

theorem pass_of_find {d : Dialect} {s : Scanner} {o : Options} {c : Char} {cs rest : List Char}
    {ts : List Token} (hfind : (d.scanners.find? fun s => s.claims (c :: cs)) = some s)
    (hscan : (s.scan o (c :: cs)).parts = (ts, rest)) (hmoved : rest.length ≤ cs.length) :
    (d.pass o c cs).parts = (ts, rest) := by
  rcases Prod.mk.inj hscan with ⟨-, hrest⟩
  have hne : (s.scan o (c :: cs)).rest ≠ c :: cs := by
    rw [hrest]
    rintro rfl
    rw [List.length_cons] at hmoved
    omega
  rw [← hscan]
  unfold Dialect.pass
  split
  · rename_i s' hs'
    obtain rfl : s = s' := Option.some.inj (hfind.symm.trans hs')
    rw [dif_neg hne]
    rfl
  · rename_i hnone
    rw [hfind] at hnone
    cases hnone

theorem tokensFrom_of_parts {d : Dialect} {o : Options} {l : Location} {c : Char}
    {cs rest : List Char} {ts : List Token} (hpass : (d.pass o c cs).parts = (ts, rest)) :
    exists m, (d.tokensFrom o l (c :: cs)).map Token.unplaced =
      ts.map Token.unplaced ++ (d.tokensFrom o m rest).map Token.unplaced := by
  rcases Prod.mk.inj hpass with ⟨htokens, hrest⟩
  refine ⟨(l.step c).past (d.pass o c cs).taken, ?_⟩
  rw [tokensFrom_cons, List.map_append, List.map_map, htokens, hrest]
  congr 1
  exact List.map_congr_left fun t _ => t.unplaced_placed l

theorem tokenize_of_parts {d : Dialect} {o : Options} {s : String} {c : Char} {cs : List Char}
    {ts : List Token} (hs : d.prepare s.toList = c :: cs)
    (hpass : (d.pass o c cs).parts = (ts, [])) :
    d.tokenize o s =
      ts.map (fun t => t.placed .start) ++ [Token.eof.placed (Location.start.past (c :: cs))] := by
  rcases Prod.mk.inj hpass with ⟨htokens, hrest⟩
  have htaken : (d.pass o c cs).taken = cs := by
    have happend := (d.pass o c cs).taken_append_rest
    rwa [hrest, List.append_nil] at happend
  rw [tokenize, hs, tokensFrom_cons, htokens, hrest, htaken, tokensFrom_nil]
  rfl

def first? (d : Dialect) (o : Options) (s : String) : Option Token :=
  (d.tokenize o s).head?.map Token.unplaced

theorem first?_of_parts {d : Dialect} {o : Options} {s : String} {c : Char}
    {cs rest : List Char} {t : Token} {ts : List Token} (hs : d.prepare s.toList = c :: cs)
    (hpass : (d.pass o c cs).parts = (t :: ts, rest)) : d.first? o s = some t.unplaced := by
  have htokens : (d.pass o c cs).tokens = t :: ts := congrArg Prod.fst hpass
  rw [first?, tokenize, hs, tokensFrom_cons, htokens]
  exact congrArg some (t.unplaced_placed _)

/-- Is the written token read back in one pass in front of `rest`? -/
def ReadsBack (d : Dialect) (t : Token) (rest : List Char) : Prop :=
  exists c cs, t.source.toList = c :: cs ∧
    forall o, (d.pass o c (cs ++ rest)).parts = ([t.unplaced], rest)

def ReadsBackAll (d : Dialect) : List Token -> Prop
  | [] => True
  | t :: ts => d.ReadsBack t (Token.runSource ts).toList ∧ d.ReadsBackAll ts

theorem ReadsBackAll.tokensFrom {d : Dialect} {ts : List Token} (h : d.ReadsBackAll ts)
    (o : Options) (l : Location) :
    (d.tokensFrom o l (Token.runSource ts).toList).map Token.unplaced =
      ts.map Token.unplaced ++ [Token.eof] := by
  induction ts generalizing l with
  | nil =>
      show (d.tokensFrom o l []).map Token.unplaced = _
      rw [tokensFrom_nil]
      rfl
  | cons t ts ih =>
      rcases h with ⟨⟨c, cs, hsource, hpass⟩, hts⟩
      have hinput : (Token.runSource (t :: ts)).toList =
          c :: (cs ++ (Token.runSource ts).toList) := by
        simp [hsource]
      rcases tokensFrom_of_parts (l := l) (hpass o) with ⟨m, htokens⟩
      rw [hinput, htokens, ih hts m]
      simp

end Dialect
end StyleTokens
