import StyleTokens.Proofs.Css.ReadBack.Run
import StyleTokens.Proofs.Structure.Flatten
import StyleTokens.Proofs.Structure.RewriteRule

/-!
# Values are read back

Values that stand apart when they are written are read back from their text.  The
tokens come back without their places, and reading does not look at these; so it is
enough that every value is read from its own tokens, whatever follows them.
-/

namespace StyleTokens

/-!
## Values without their places
-/

namespace Rewrite

/-- Everything, at every depth, loses its place in the text. -/
def unplacing : Rewrite := ⟨false, fun _ => .unknown⟩

theorem unplacing_run (ts : List Token) : unplacing.run ts = ts.map unplacing.token := by
  rw [run_eq_map_filter, List.filter_eq_self.mpr]
  intro t _
  rfl

theorem unplacing_numeric {t : Token} (h : Css.Numeric t) : unplacing.token t = t.unplaced := by
  cases h <;> rfl

theorem unplacing_cut {t : Token} (h : Css.Lexeme t ∨ Css.Remark t) :
    unplacing.token t = t.unplaced := by
  rcases h with hlexeme | hremark
  · cases hlexeme with
    | numeric h => exact unplacing_numeric h
    | @badNumber t l e h =>
        show Token.mk _ (.inner (unplacing.token t)) _ _ = _
        rw [unplacing_numeric h]
        rfl
    | _ => rfl
  · cases hremark
    rfl

theorem unplacing_map {ts : List Token} (h : forall t, t ∈ ts -> Css.Emitted t) :
    unplacing.run ts = ts.map Token.unplaced := by
  rw [unplacing_run]
  exact List.map_congr_left fun t ht => unplacing_cut (h t ht).cases

theorem respects_isEof : unplacing.Respects Token.isEof where
  token t _ := unplacing.token_isEof t
  dropped _ _ h := by cases h

theorem error_eq_nil {r : Rewrite} {α : Type} {f : α -> α} {p q : Parsed α}
    (h : r.parsed f p = q) (hq : q.errors = []) : p.errors = [] := by
  rw [← h] at hq
  exact List.map_eq_nil_iff.mp hq

end Rewrite

open Rewrite (unplacing)

def IsLeaf : Payload -> Prop
  | .inner _ => False
  | .block _ => False
  | .call _ => False
  | _ => True

theorem IsLeaf.unplaced {p : Payload} (h : IsLeaf p) (k : Kind) (l : Location) :
    Token.unplaced ⟨k, p, l, none⟩ = .of k p := by
  cases p <;> first | rfl | exact h.elim

theorem IsLeaf.unplacing {p : Payload} (h : IsLeaf p) (k : Kind) (l : Location) :
    unplacing.token ⟨k, p, l, none⟩ = .of k p := by
  cases p <;> first | rfl | exact h.elim

theorem IsLeaf.flat {p : Payload} (h : IsLeaf p) (k : Kind) (l : Location) :
    Token.flat ⟨k, p, l, none⟩ = [⟨k, p, l, none⟩] := by
  cases p <;> first | rfl | exact h.elim

theorem IsLeaf.eq_of_unplaced {p : Payload} (h : IsLeaf p) {k : Kind} {t : Token}
    (ht : t.unplaced = .of k p) : exists l, t = ⟨k, p, l, none⟩ :=
  Token.eq_of_unplaced (fun u hu => by rw [hu] at h; exact h) ht

namespace Css

theorem Lexeme.leaf {t : Token} (h : Lexeme t) (hsound : t.isFaulty = false) :
    exists k p l, t = ⟨k, p, l, none⟩ ∧ IsLeaf p := by
  cases h with
  | numeric h => cases h <;> exact ⟨_, _, _, rfl, trivial⟩
  | broken => simp [Token.isFaulty] at hsound
  | stray => simp [Token.isFaulty] at hsound
  | badNumber => simp [Token.isFaulty] at hsound
  | _ => exact ⟨_, _, _, rfl, trivial⟩

theorem Legible.leaf {t : Token} (h : Legible t) :
    exists k p l, t = ⟨k, p, l, none⟩ ∧ IsLeaf p :=
  h.lexeme.leaf h.sound

theorem Emitted.error_eq_none {t : Token} (h : Emitted t)
    (hkind : t.kind ∉ [delim, badString, badUrl, badNumber]) : t.error = none := by
  rcases h.cases with hlexeme | hremark
  · cases hlexeme with
    | numeric h => cases h <;> rfl
    | broken hk => rcases hk with rfl | rfl <;> simp at hkind
    | stray => simp at hkind
    | badNumber => simp at hkind
    | _ => rfl
  · cases hremark
    rfl

theorem Emitted.unplaced_of_content {t u : Token} (h : Emitted t)
    (hkind : t.kind ∉ [delim, badString, badUrl, badNumber])
    (hu : u.error = none) (heq : t.content = u.content) : t.unplaced = u.unplaced := by
  have herror := h.error_eq_none hkind
  rcases t with ⟨kind, payload, location, error⟩
  rcases u with ⟨kind', payload', location', error'⟩
  cases herror
  cases hu
  rcases Prod.mk.inj heq with ⟨hkind, hpayload⟩
  cases hkind
  cases hpayload
  rfl

end Css

/-!
## Values that are read from their own tokens
-/

theorem runFlat_append (a b : List Token) :
    Token.runFlat (a ++ b) = Token.runFlat a ++ Token.runFlat b := by
  induction a with
  | nil => rfl
  | cons t a ih => rw [List.cons_append, runFlat_cons, ih, runFlat_cons, List.append_assoc]

/-- The value is read from its own tokens, whatever stands behind them. -/
def Token.Settled (n : Nesting) (t : Token) : Prop :=
  exists head tail, t.flat.map Token.unplaced = head :: tail ∧ head.isEof = false ∧
    forall more, readComponent n head (tail ++ more) = ⟨unplacing.token t, [], more⟩

theorem Css.Legible.settled {t : Token} (h : Css.Legible t) (ho : t.opens? = none)
    (n : Nesting) : t.Settled n := by
  have heof := h.ne_eof
  have hlexeme := h.lexeme
  rcases h.leaf with ⟨k, p, l, rfl, hp⟩
  refine ⟨.of k p, [], ?_, ?_, ?_⟩
  · rw [hp.flat, List.map_singleton, hp.unplaced]
  · rw [Bool.eq_false_iff]
    intro hsame
    have hmem : k ∈ Css.comment :: Css.contentKinds := List.mem_cons_of_mem _ hlexeme.kind_mem
    exact heof (Css.kind_of_same hmem (by simp [Css.contentKinds, Css.bareKinds]) hsame)
  · intro more
    have hopens : (Token.of k p).opens? = none := ho
    rw [List.nil_append, readComponent_of_opens_none n more hopens, hp.unplacing]

theorem parseRun_flat {n : Nesting} {ts : List Token} (h : forall t, t ∈ ts -> t.Settled n) :
    parseRun n Token.isEof ((Token.runFlat ts).map Token.unplaced ++ [.eof]) =
      ⟨ts.map unplacing.token, [], [.eof]⟩ := by
  induction ts with
  | nil => exact parseRun_of_standsAt (standsAt_cons [] rfl)
  | cons t ts ih =>
      rcases h t List.mem_cons_self with ⟨head, tail, hflat, hhead, hread⟩
      rw [runFlat_cons, List.map_append, hflat, List.append_assoc, List.cons_append,
        parseRun_cons _ hhead, hread, Parsed.followedBy,
        ih fun u hu => h u (List.mem_cons_of_mem t hu)]
      rfl

/-- Values that are legible, stand apart and are read from their own tokens are the
values of their text, but for their places. -/
theorem readRun_runSource {n : Nesting} {ts : List Token} (o : Options)
    (hlegible : forall t, t ∈ Token.runFlat ts -> Css.Legible t)
    (hapart : Css.standApart (Token.runFlat ts) = true)
    (hsettled : forall t, t ∈ ts -> t.Settled n) :
    (readRun n Token.isEof (Css.tokenize o (Token.runSource (Token.runFlat ts)))).errors = [] ∧
      (readRun n Token.isEof (Css.tokenize o (Token.runSource (Token.runFlat ts)))).values.map
        unplacing.token = ts.map unplacing.token := by
  have htokens := Css.tokenize_of_standApart o hlegible hapart
  have hemitted : forall t, t ∈ Css.tokenize o (Token.runSource (Token.runFlat ts)) ->
      Css.Emitted t := fun t ht => ⟨o, _, ht⟩
  have hread := Rewrite.parseRun_run n Token.isEof Rewrite.respects_isEof _ hemitted
  rw [Rewrite.unplacing_map hemitted, htokens, parseRun_flat hsettled] at hread
  constructor
  · exact Rewrite.error_eq_nil hread.symm rfl
  · rw [← Rewrite.unplacing_run]
    exact (congrArg Parsed.value hread).symm

/-!
## Values that were read
-/

namespace Css

theorem closing_kinds {u : Token} {c : Construct} (ho : u.opens? = some c) :
    c.closer.kind ∉ [delim, badString, badUrl, badNumber] := by
  have hall : forall k, k ∈ [closeBrace, closeBracket, closeParen] ->
      [delim, badString, badUrl, badNumber].any k.same = false := by decide
  exact Kind.not_mem_of_same (hall _ (closing_of_opens? ho))

theorem Emitted.unplaced_of_opens? {t : Token} (h : Emitted t) {c : Construct}
    (ho : t.opens? = some c) (l : Location) : t.unplaced = (c.opener l).unplaced := by
  have hcontent := h.content_of_opens? ho
  have hkind : t.kind = (c.opener t.location).kind := congrArg Prod.fst hcontent
  have hmoved : (c.opener t.location).content = (c.opener l).content := by
    cases c <;> rfl
  have herror : (c.opener l).error = none := by
    cases c <;> rfl
  refine h.unplaced_of_content ?_ herror (hcontent.trans hmoved)
  have hopeners : forall k, k ∈ comment :: contentKinds ->
      ((closingOf? k).isSome || k.same function) = true ->
        [delim, badString, badUrl, badNumber].any k.same = false := by
    decide
  refine Kind.not_mem_of_same (hopeners _ h.kind_mem ?_)
  unfold Token.opens? at ho
  split at ho
  · rename_i closing hclosing
    rw [hclosing]
    rfl
  · split at ho
    · rename_i his
      rw [show t.kind.same function = true from his, Bool.or_true]
    · cases ho

theorem Emitted.unplaced_of_closing {t : Token} (h : Emitted t) {u : Token} {c : Construct}
    (ho : u.opens? = some c) (his : t.is c.closing = true) : t.unplaced = c.closer.unplaced := by
  have hcontent := h.content_of_closing ho his
  apply h.unplaced_of_content _ rfl hcontent
  rw [show t.kind = c.closer.kind from congrArg Prod.fst hcontent]
  exact closing_kinds ho

end Css

/-- The values are made of the tokens: every value is a token by itself, or a construct
of values between the tokens that open and close it. -/
inductive MadeOf : List Token -> List Token -> Prop where
  | nil : MadeOf [] []
  | single {t : Token} {values tokens : List Token} (ht : Css.Emitted t) (ho : t.opens? = none)
      (h : MadeOf values tokens) : MadeOf (t :: values) (t :: tokens)
  | nested {t u : Token} {c : Construct} {inner inside values tokens : List Token}
      (ht : Css.Emitted t) (ho : t.opens? = some c) (hu : Css.Emitted u)
      (hclosing : u.is c.closing = true) (hinner : MadeOf inner inside)
      (h : MadeOf values tokens) :
      MadeOf (c.token inner t.location :: values) (t :: (inside ++ u :: tokens))

theorem MadeOf.unplaced_flat {values tokens : List Token} (h : MadeOf values tokens) :
    (Token.runFlat values).map Token.unplaced = tokens.map Token.unplaced := by
  induction h with
  | nil => rfl
  | single ht _ _ ih =>
      rw [runFlat_cons, ht.flat, List.map_append, ih]
      rfl
  | @nested t u c inner inside values tokens ht ho hu hclosing _ _ ihinner ih =>
      have hopener := ht.unplaced_of_opens? ho t.location
      have hcloser := hu.unplaced_of_closing ho hclosing
      simp only [runFlat_cons, flat_construct, List.map_append, List.map_cons, List.cons_append,
        List.append_assoc, List.nil_append, ihinner, ih, hopener, hcloser]

section

variable {n : Nesting} {t : Token} {c : Construct} {ts : List Token}

theorem madeOf_contents (hemitted : forall u, u ∈ t :: ts -> Css.Emitted u)
    (ho : t.opens? = some c) (h : (parseContents n c t.location ts).errors = [])
    (hrun : (parseRun n.deeper c.ends ts).errors = [] ->
      exists inside, inside ++ (parseRun n.deeper c.ends ts).rest = ts ∧
        MadeOf (parseRun n.deeper c.ends ts).value inside) :
    exists taken, taken ++ (parseContents n c t.location ts).rest = ts ∧
      forall {values tokens}, MadeOf values tokens ->
        MadeOf (c.token (parseContents n c t.location ts).value t.location :: values)
          (t :: (taken ++ tokens)) := by
  rcases parseRun_of_contents h with ⟨u, _, hclosing, hinner⟩
  rw [hinner] at hrun
  rcases hrun rfl with ⟨inside, hinside, hmade⟩
  have hu : u ∈ ts := by
    rw [← hinside]
    simp
  refine ⟨inside ++ [u], ?_, ?_⟩
  · rw [List.append_assoc]
    exact hinside
  · intro values tokens hothers
    rw [List.append_assoc]
    exact .nested (hemitted t List.mem_cons_self) ho (hemitted u (List.mem_cons_of_mem t hu))
      hclosing hmade hothers

/-- Without an error, the values of a run are made of the tokens that were taken. -/
theorem madeOf_parseRun (n : Nesting) (stop : Predicate) (ts : List Token)
    (hemitted : forall t, t ∈ ts -> Css.Emitted t) (h : (parseRun n stop ts).errors = []) :
    exists taken, taken ++ (parseRun n stop ts).rest = ts ∧
      MadeOf (parseRun n stop ts).value taken := by
  induction n, stop, ts using readRun_induction with
  | nil n stop =>
      rw [parseRun_of_standsAt (standsAt_nil stop)]
      exact ⟨[], rfl, .nil⟩
  | stopped n stop t ts ht =>
      rw [parseRun_of_standsAt (standsAt_cons ts ht)]
      exact ⟨[], rfl, .nil⟩
  | single n stop t ts ht ho ih =>
      rw [parseRun_cons ts ht, readComponent_of_opens_none n ts ho] at h ⊢
      rcases ih (fun u hu => hemitted u (List.mem_cons_of_mem t hu)) h with
        ⟨taken, htaken, hmade⟩
      exact ⟨t :: taken, congrArg (t :: ·) htaken,
        .single (hemitted t List.mem_cons_self) ho hmade⟩
  | nested n stop t ts c ht ho ihinside ih =>
      have htail : forall u, u ∈ ts -> Css.Emitted u :=
        fun u hu => hemitted u (List.mem_cons_of_mem t hu)
      rw [parseRun_cons ts ht, readComponent_eq_parseContents n ts ho] at h ⊢
      rcases List.append_eq_nil_iff.mp h with ⟨hcontents, hothers⟩
      rcases madeOf_contents hemitted ho hcontents (ihinside htail) with
        ⟨inside, hinside, hfirst⟩
      have hrest : forall u, u ∈ (parseContents n c t.location ts).rest -> Css.Emitted u := by
        intro u hu
        apply htail
        rw [← hinside]
        exact List.mem_append_right inside hu
      rcases ih hrest hothers with ⟨taken, htaken, hmade⟩
      refine ⟨t :: (inside ++ taken), ?_, hfirst hmade⟩
      rw [List.cons_append, List.append_assoc]
      exact congrArg (t :: ·) ((congrArg (inside ++ ·) htaken).trans hinside)

theorem madeOf_readComponent (hemitted : forall u, u ∈ t :: ts -> Css.Emitted u)
    (h : (readComponent n t ts).errors = []) :
    exists taken, taken ++ (readComponent n t ts).rest = ts ∧
      MadeOf [(readComponent n t ts).value] (t :: taken) := by
  cases ho : t.opens? with
  | none =>
      rw [readComponent_of_opens_none n ts ho]
      exact ⟨[], rfl, .single (hemitted t List.mem_cons_self) ho .nil⟩
  | some c =>
      rw [readComponent_eq_parseContents n ts ho] at h ⊢
      rcases madeOf_contents hemitted ho h (madeOf_parseRun n.deeper c.ends ts
        fun u hu => hemitted u (List.mem_cons_of_mem t hu)) with ⟨taken, htaken, hmade⟩
      have halone := hmade .nil
      rw [List.append_nil] at halone
      exact ⟨taken, htaken, halone⟩

theorem unplaced_flat_readComponent (hemitted : forall u, u ∈ t :: ts -> Css.Emitted u)
    (h : (readComponent n t ts).errors = []) :
    exists taken, taken ++ (readComponent n t ts).rest = ts ∧
      (readComponent n t ts).value.flat.map Token.unplaced = (t :: taken).map Token.unplaced := by
  rcases madeOf_readComponent hemitted h with ⟨taken, htaken, hmade⟩
  have hflat := hmade.unplaced_flat
  rw [runFlat_cons, runFlat_nil, List.append_nil] at hflat
  exact ⟨taken, htaken, hflat⟩

theorem readComponent_unplaced (hemitted : forall u, u ∈ t :: ts -> Css.Emitted u)
    (ho : t.opens? = some c) :
    readComponent n t.unplaced (ts.map Token.unplaced) =
      unplacing.parsed unplacing.token (readComponent n t ts) := by
  have ht := hemitted t List.mem_cons_self
  have htail : forall u, u ∈ ts -> Css.Emitted u :=
    fun u hu => hemitted u (List.mem_cons_of_mem t hu)
  have hopens : t.unplaced.opens? = some c := by
    rw [← Rewrite.unplacing_cut ht.cases, Rewrite.token_opens? _ ht, ho]
  have hcontents := Rewrite.parseContents_run (r := unplacing) (n := n) htail ho t.location
  rw [readComponent_eq_parseContents n _ hopens, readComponent_eq_parseContents n ts ho,
    ← Rewrite.unplacing_map htail]
  have hlocation : t.unplaced.location = unplacing.move t.location := t.placed_location .unknown
  rw [hlocation, hcontents]
  simp only [Rewrite.parsed, Rewrite.token_construct]

theorem settled_of_readComponent (hemitted : forall u, u ∈ t :: ts -> Css.Emitted u)
    (heof : t.isEof = false) (ho : t.opens? = some c)
    (h : (readComponent n t ts).errors = []) : (readComponent n t ts).value.Settled n := by
  rcases settles_readComponent h with ⟨taken, htaken, _, hmore⟩
  rcases unplaced_flat_readComponent hemitted h with ⟨taken', htaken', hflat⟩
  have hsame : taken = taken' := List.append_cancel_right (htaken.trans htaken'.symm)
  subst hsame
  have hfront : forall u, u ∈ t :: taken -> Css.Emitted u := by
    intro u hu
    apply hemitted
    rw [← htaken, ← List.cons_append]
    exact List.mem_append_left _ hu
  have halone := hmore []
  rw [List.append_nil, h] at halone
  have hmoved := readComponent_unplaced (n := n) hfront ho
  rw [halone] at hmoved
  have herrors : (readComponent n t.unplaced (taken.map Token.unplaced)).errors = [] := by
    rw [hmoved]
    rfl
  rcases settles_readComponent herrors with ⟨front, hall, _, hbehind⟩
  rw [hmoved] at hall hbehind
  have hfronteq : front = taken.map Token.unplaced := by
    rw [← hall]
    exact (List.append_nil front).symm
  refine ⟨t.unplaced, taken.map Token.unplaced, ?_, ?_, ?_⟩
  · exact hflat
  · rw [Token.isEof, Token.is, Token.unplaced, Token.placed_kind]
    exact heof
  · rw [← hfronteq]
    exact hbehind

end

theorem parseContents_call {n : Nesting} {name : String} {l : Location} {ts : List Token}
    (h : (parseContents n (.call name) l ts).errors = []) (name' : String) (l' : Location) :
    parseContents n (.call name') l' ts = parseContents n (.call name) l ts := by
  have hfull := not_isFull_of_errors_nil h
  rw [parseContents_of_not_full hfull] at h
  rcases closedBy_errors_nil h with ⟨u, us, hrest, hu, herrors, hclosed⟩
  rw [parseContents_of_not_full hfull, parseContents_of_not_full hfull, hclosed]
  show Parsed.closedBy _ _ (parseRun n.deeper (Construct.call name).ends ts) = _
  rcases hrun : parseRun n.deeper (Construct.call name).ends ts with ⟨values, errors, rest⟩
  rw [hrun] at hrest herrors
  cases hrest
  cases herrors
  exact closedBy_cons hu values us

theorem Token.Settled.rename {n : Nesting} {name : String} {values : List Token} {l : Location}
    (h : ((Construct.call name).token values l).Settled n) (name' : String) (l' : Location) :
    ((Construct.call name').token values l').Settled n := by
  rcases h with ⟨head, tail, hflat, _, hread⟩
  have htail : tail = (Token.runFlat values ++ [Token.bare Css.closeParen]).map Token.unplaced :=
    (List.cons.inj hflat).2.symm
  have hhead : head = ⟨Css.function, .text name, .unknown, none⟩ := (List.cons.inj hflat).1.symm
  refine ⟨⟨Css.function, .text name', .unknown, none⟩, tail, ?_, rfl, ?_⟩
  · rw [flat_construct, htail]
    rfl
  · intro more
    have hopens : forall name, Token.opens? ⟨Css.function, .text name, .unknown, none⟩ =
        some (.call name) := fun _ => rfl
    have hcall := hread more
    rw [hhead, readComponent_eq_parseContents n _ (hopens name), Parsed.mk.injEq] at hcall
    rcases hcall with ⟨hvalue, herrors, hrest⟩
    rw [readComponent_eq_parseContents n _ (hopens name'), parseContents_call herrors, herrors,
      hrest]
    have hvalues : (parseContents n (.call name) .unknown (tail ++ more)).value =
        unplacing.run values := congrArg Token.values hvalue
    rw [hvalues]
    rfl

end StyleTokens
