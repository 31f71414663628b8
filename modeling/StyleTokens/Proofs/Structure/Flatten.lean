import StyleTokens.Proofs.Css.Concat
import StyleTokens.Proofs.Structure.Sound

/-!
# What values were read from

Written out as tokens again, component values are the tokens they were read from,
in the same order, and a closing token for every construct that was not closed.
Which constructs those are is counted on the tokens alone, with a stack: this module
shows that the recursion on values and the stack agree, error by error.
-/

namespace StyleTokens

/-!
## Flattening
-/

def Token.content (t : Token) : Kind × Payload := (t.kind, t.payload)

namespace Construct

def opener (c : Construct) (l : Location) : Token :=
  match c with
  | block opening _ => ⟨opening, .none, l, none⟩
  | call name => ⟨Css.function, .text name, l, none⟩

def closer (c : Construct) : Token := .bare c.closing

end Construct

mutual

/-- The tokens of a value.  Only a block or a call has more than one. -/
def Token.flat (t : Token) : List Token :=
  match t with
  | ⟨kind, payload, location, error⟩ => payload.flat?.getD [⟨kind, payload, location, error⟩]

def Payload.flat? (p : Payload) : Option (List Token) :=
  match p with
  | .block b => some b.flat
  | .call c => some c.flat
  | _ => none

def Block.flat (b : Block) : List Token :=
  match b with
  | ⟨opening, closing, values, location⟩ =>
      (Construct.block opening closing).opener location ::
        (Token.runFlat values ++ [(Construct.block opening closing).closer])

def Call.flat (c : Call) : List Token :=
  match c with
  | ⟨name, values, location⟩ =>
      (Construct.call name).opener location ::
        (Token.runFlat values ++ [(Construct.call name).closer])

def Token.runFlat (ts : List Token) : List Token :=
  match ts with
  | [] => []
  | t :: ts => t.flat ++ Token.runFlat ts

end

theorem flat_construct (c : Construct) (values : List Token) (l : Location) :
    (c.token values l).flat = c.opener l :: (Token.runFlat values ++ [c.closer]) := by
  cases c <;> rfl

theorem flat_of_plain {t : Token} (hblock : t.asBlock? = none) (hcall : t.asCall? = none) :
    t.flat = [t] := by
  cases t with
  | mk kind payload location error =>
      cases payload with
      | block b => cases hblock
      | call c => cases hcall
      | _ => rfl

@[simp] theorem runFlat_nil : Token.runFlat [] = [] := rfl

@[simp] theorem runFlat_cons (t : Token) (ts : List Token) :
    Token.runFlat (t :: ts) = t.flat ++ Token.runFlat ts := rfl

namespace Css

theorem Emitted.flat {t : Token} (h : Emitted t) : t.flat = [t] :=
  flat_of_plain h.asBlock?_eq_none h.asCall?_eq_none

theorem Emitted.content_of_opens? {t : Token} (h : Emitted t) {c : Construct}
    (ho : t.opens? = some c) : t.content = (c.opener t.location).content := by
  unfold Token.opens? at ho
  split at ho
  · rename_i closing hclosing
    cases ho
    have hopening : exists k, k ∈ brackets ∧ t.is k = true := by
      unfold closingOf? at hclosing
      split at hclosing
      · rename_i his
        exact ⟨openBrace, by simp [brackets], his⟩
      · split at hclosing
        · rename_i his
          exact ⟨openBracket, by simp [brackets], his⟩
        · split at hclosing
          · rename_i his
            exact ⟨openParen, by simp [brackets], his⟩
          · cases hclosing
    cases hopening with
    | intro k hk => exact Prod.ext rfl (h.of_bracket hk.1 hk.2).2
  · split at ho
    · rename_i his
      cases ho
      cases h.of_function his with
      | intro hkind hpayload => exact Prod.ext hkind hpayload
    · cases ho

theorem Emitted.content_of_closing {t : Token} (h : Emitted t) {u : Token} {c : Construct}
    (ho : u.opens? = some c) (his : t.is c.closing = true) : t.content = c.closer.content := by
  have hbracket : c.closing ∈ brackets := by
    have hall : forall k, k ∈ [closeBrace, closeBracket, closeParen] -> k ∈ brackets := by
      simp [brackets]
    exact hall _ (closing_of_opens? ho)
  cases h.of_bracket hbracket his with
  | intro hkind hpayload => exact Prod.ext hkind hpayload

end Css

/-!
## Constructs that are open

The stack of the constructs that are open behind some tokens holds the innermost
first.  Only the token that closes the innermost one takes it away.
-/

/-- A construct with the place where it was opened. -/
structure Opening where
  construct : Construct
  location : Location

namespace Opening

def report (p : Opening) : StructureError := .unexpectedEof p.construct.title p.location

def closer (p : Opening) : Token := p.construct.closer

def behind (pending : List Opening) (t : Token) : List Opening :=
  match t.opens? with
  | some c => ⟨c, t.location⟩ :: pending
  | none =>
      match pending with
      | [] => []
      | p :: outer => if t.is p.construct.closing then outer else p :: outer

def pending (ts : List Token) : List Opening := ts.foldl behind []

theorem behind_of_opens (stack : List Opening) {t : Token} {c : Construct}
    (ho : t.opens? = some c) : behind stack t = ⟨c, t.location⟩ :: stack := by
  simp only [behind, ho]

theorem behind_of_closing {p : Opening} (outer : List Opening) {t : Token}
    (ho : t.opens? = none) (his : t.is p.construct.closing = true) :
    behind (p :: outer) t = outer := by
  simp only [behind, ho, if_pos his]

/-- A test stops at what would close the innermost construct. -/
def Guards (stop : Predicate) (stack : List Opening) : Prop :=
  forall p t, stack.head? = some p -> t.is p.construct.closing = true -> stop t = true

theorem guards_nil (stop : Predicate) : Guards stop [] := by
  intro p t hp
  cases hp

theorem guards_ends (p : Opening) (outer : List Opening) :
    Guards p.construct.ends (p :: outer) := by
  intro q t hq his
  cases hq
  simp [Construct.ends, his]

theorem behind_of_guards {stop : Predicate} {stack : List Opening} (h : Guards stop stack)
    {t : Token} (ho : t.opens? = none) (ht : stop t = false) : behind stack t = stack := by
  simp only [behind, ho]
  cases stack with
  | nil => rfl
  | cons p outer =>
      apply if_neg
      intro his
      rw [h p t rfl his] at ht
      cases ht

end Opening

/-!
## Accounts
-/

open Opening (Guards behind)

/-- The values come from the tokens that were taken.  What is left open by them is
reported, lacks its closing token, and lets the text end. -/
structure Accounts (stack : List Opening) (taken : List Token) (unclosed : List Opening)
    (p : Parsed (List Token)) : Prop where
  eofFree : EofFree taken
  errors_eq : p.errors = unclosed.map Opening.report
  content_eq : (Token.runFlat p.value).map Token.content =
    (taken ++ unclosed.map Opening.closer).map Token.content
  pending_eq : taken.foldl behind stack = unclosed ++ stack
  ended : unclosed ≠ [] -> StandsAt Token.isEof p.rest

theorem accounts_stopped (stack : List Opening) (ts : List Token) :
    Accounts stack [] [] ⟨[], [], ts⟩ where
  eofFree := eofFree_nil
  errors_eq := rfl
  content_eq := rfl
  pending_eq := rfl
  ended h := absurd rfl h

theorem Accounts.followedBy {stack unclosed : List Opening} {taken others : List Token}
    {p : Parsed Token} {q : Parsed (List Token)}
    (hp : Accounts stack taken [] ⟨[p.value], p.errors, p.rest⟩)
    (hq : Accounts stack others unclosed q) :
    Accounts stack (taken ++ others) unclosed (p.followedBy q) where
  eofFree := hp.eofFree.append hq.eofFree
  errors_eq := by
    show p.errors ++ q.errors = _
    rw [show p.errors = [] from hp.errors_eq, hq.errors_eq]
    rfl
  content_eq := by
    have hfirst := hp.content_eq
    simp only [runFlat_cons, runFlat_nil, List.append_nil, List.map_nil] at hfirst
    show (p.value.flat ++ Token.runFlat q.value).map Token.content = _
    rw [List.map_append, hfirst, hq.content_eq, ← List.map_append, List.append_assoc]
  pending_eq := by
    rw [List.foldl_append, hp.pending_eq]
    exact hq.pending_eq
  ended := hq.ended

theorem Accounts.last {stack unclosed : List Opening} {taken : List Token} {p : Parsed Token}
    (hp : Accounts stack taken unclosed ⟨[p.value], p.errors, p.rest⟩) :
    Accounts stack taken unclosed (p.followedBy ⟨[], [], p.rest⟩) where
  eofFree := hp.eofFree
  errors_eq := by
    show p.errors ++ [] = _
    rw [List.append_nil]
    exact hp.errors_eq
  content_eq := hp.content_eq
  pending_eq := hp.pending_eq
  ended := hp.ended

/-!
## Runs
-/

def HasEof (ts : List Token) : Prop :=
  exists t, t ∈ ts ∧ t.isEof = true

theorem HasEof.of_append {taken rest : List Token} (h : HasEof (taken ++ rest))
    (hfree : EofFree taken) : HasEof rest := by
  rcases h with ⟨t, ht, heof⟩
  cases List.mem_append.mp ht with
  | inl hmem =>
      rw [hfree t hmem] at heof
      cases heof
  | inr hmem => exact ⟨t, hmem, heof⟩

theorem HasEof.tail {t : Token} {ts : List Token} (h : HasEof (t :: ts))
    (ht : t.isEof = false) : HasEof ts := by
  have happend : HasEof ([t] ++ ts) := h
  exact happend.of_append (eofFree_nil.cons ht)

theorem accounts_single {stop : Predicate} {stack : List Opening} (hguards : Guards stop stack)
    {t : Token} (hemitted : Css.Emitted t) (heof : t.isEof = false) (ho : t.opens? = none)
    (ht : stop t = false) (rest : List Token) : Accounts stack [t] [] ⟨[t], [], rest⟩ where
  eofFree := eofFree_nil.cons heof
  errors_eq := rfl
  content_eq := by
    rw [runFlat_cons, hemitted.flat]
    rfl
  pending_eq := Opening.behind_of_guards hguards ho ht
  ended h := absurd rfl h

section

variable {stack unclosed : List Opening} {t : Token} {c : Construct} {taken : List Token}
variable {values : List Token} {errors : List StructureError} {u : Token} {rest : List Token}

theorem accounts_unfinished (hemitted : Css.Emitted t) (ht : t.isEof = false)
    (ho : t.opens? = some c) (hu : u.isEof = true)
    (h : Accounts (⟨c, t.location⟩ :: stack) taken unclosed ⟨values, errors, u :: rest⟩) :
    Accounts stack (t :: taken) (unclosed ++ [⟨c, t.location⟩])
      ⟨[c.token values t.location], errors ++ [.unexpectedEof c.title t.location], u :: rest⟩ := by
  have hcontent := h.content_eq
  simp only [List.map_append] at hcontent
  constructor
  · exact h.eofFree.cons ht
  · show errors ++ _ = _
    rw [show errors = _ from h.errors_eq, List.map_append]
    rfl
  · simp [flat_construct, hemitted.content_of_opens? ho, hcontent, Opening.closer]
  · rw [List.foldl_cons, Opening.behind_of_opens stack ho, h.pending_eq, List.append_assoc]
    rfl
  · intro _
    exact standsAt_cons rest hu

theorem accounts_closed (hemitted : Css.Emitted t) (ht : t.isEof = false)
    (ho : t.opens? = some c) (hu : u.isEof = false) (hlast : Css.Emitted u)
    (hclosing : u.is c.closing = true)
    (h : Accounts (⟨c, t.location⟩ :: stack) taken unclosed ⟨values, errors, u :: rest⟩) :
    Accounts stack (t :: (taken ++ [u])) [] ⟨[c.token values t.location], errors, rest⟩ := by
  have hnone : unclosed = [] := by
    cases unclosed with
    | nil => rfl
    | cons q others =>
        have hended : u.isEof = true := h.ended (by simp) u rfl
        rw [hu] at hended
        cases hended
  subst hnone
  have hcontent := h.content_eq
  simp only [List.map_append] at hcontent
  constructor
  · exact (h.eofFree.append (eofFree_nil.cons hu)).cons ht
  · exact h.errors_eq
  · simp [flat_construct, hemitted.content_of_opens? ho, hcontent,
      hlast.content_of_closing ho hclosing]
  · rw [List.foldl_cons, Opening.behind_of_opens stack ho, List.foldl_append, h.pending_eq]
    exact Opening.behind_of_closing (p := ⟨c, t.location⟩) stack
      (opens?_eq_none_of_closing ho hclosing) hclosing
  · intro hne
    exact absurd rfl hne

end

/-- Reading accounts for the tokens that it takes off the input. -/
def AccountsFor (stack : List Opening) (input : List Token) (p : Parsed (List Token)) : Prop :=
  exists taken unclosed, taken ++ p.rest = input ∧ Accounts stack taken unclosed p

theorem accountsFor_nested {n : Nesting} {stack : List Opening} {t : Token} {c : Construct}
    {ts : List Token} (hemitted : forall u, u ∈ t :: ts -> Css.Emitted u)
    (ht : t.isEof = false) (ho : t.opens? = some c) (hends : HasEof ts)
    (h : AccountsFor (⟨c, t.location⟩ :: stack) ts (parseRun n c.ends ts)) :
    AccountsFor stack (t :: ts)
      ⟨[c.token ((parseRun n c.ends ts).closedBy c t.location).value t.location],
        ((parseRun n c.ends ts).closedBy c t.location).errors,
        ((parseRun n c.ends ts).closedBy c t.location).rest⟩ := by
  rcases h with ⟨taken, unclosed, htaken, haccounts⟩
  have hstands := standsAt_parseRun_rest n c.ends ts
  rcases hrun : parseRun n c.ends ts with ⟨values, errors, rest⟩
  rw [hrun] at htaken haccounts hstands
  subst htaken
  have hopen := hemitted t List.mem_cons_self
  cases rest with
  | nil =>
      -- the end of the text is not taken, so there is something left
      rcases hends.of_append haccounts.eofFree with ⟨u, hu, _⟩
      cases hu
  | cons u rest =>
      cases hu : u.isEof with
      | true =>
          simp only [Parsed.closedBy, hu, if_true]
          exact ⟨_, _, rfl, accounts_unfinished hopen ht ho hu haccounts⟩
      | false =>
          have hclosing := Construct.is_closing_of_ends (hstands u rfl) hu
          have hlast : Css.Emitted u := hemitted u (by simp)
          simp only [Parsed.closedBy, hu, Bool.false_eq_true, if_false]
          refine ⟨_, _, ?_, accounts_closed hopen ht ho hu hlast hclosing haccounts⟩
          simp

theorem accountsFor_cons {n : Nesting} {stop : Predicate} (heof : StopsAtEof stop)
    {stack : List Opening} {t : Token} {ts : List Token} (ht : stop t = false)
    (hfirst : AccountsFor stack (t :: ts)
      ⟨[(readComponent n t ts).value], (readComponent n t ts).errors, (readComponent n t ts).rest⟩)
    (hothers : AccountsFor stack (readComponent n t ts).rest
      (parseRun n stop (readComponent n t ts).rest)) :
    AccountsFor stack (t :: ts) (parseRun n stop (t :: ts)) := by
  rcases hfirst with ⟨taken, unclosed, htaken, haccounts⟩
  rw [parseRun_cons ts ht]
  cases unclosed with
  | nil =>
      rcases hothers with ⟨taken', unclosed', htaken', haccounts'⟩
      refine ⟨taken ++ taken', unclosed', ?_, haccounts.followedBy haccounts'⟩
      rw [List.append_assoc]
      show taken ++ (taken' ++ (parseRun n stop (readComponent n t ts).rest).rest) = _
      rw [htaken']
      exact htaken
  | cons p outer =>
      have hstands : StandsAt stop (readComponent n t ts).rest := by
        intro u hu
        exact heof u (haccounts.ended (by simp) u hu)
      rw [parseRun_of_standsAt hstands]
      exact ⟨taken, p :: outer, htaken, haccounts.last⟩

/-- Every run accounts for what it takes, under a limit that it cannot reach. -/
theorem accountsFor_parseRun (n : Nesting) (stop : Predicate) (heof : StopsAtEof stop)
    (stack : List Opening) (hguards : Guards stop stack) (ts : List Token)
    (hemitted : forall t, t ∈ ts -> Css.Emitted t) (hends : HasEof ts)
    (hroom : n.depth + ts.length ≤ n.limit) :
    AccountsFor stack ts (parseRun n stop ts) := by
  -- the stack grows with the nesting: inside a construct, its own opening is on top
  induction n, stop, ts using readRun_induction generalizing stack with
  | nil n stop =>
      rcases hends with ⟨t, ht, _⟩
      cases ht
  | stopped n stop t ts ht =>
      rw [parseRun_of_standsAt (standsAt_cons ts ht)]
      exact ⟨[], [], rfl, accounts_stopped stack (t :: ts)⟩
  | single n stop t ts ht ho ih =>
      have hfree : t.isEof = false := heof.not_isEof ht
      have hroom' : n.depth + ts.length ≤ n.limit := by
        simp only [List.length_cons] at hroom
        omega
      apply accountsFor_cons heof ht
      · rw [readComponent_of_opens_none n ts ho]
        exact ⟨[t], [], rfl,
          accounts_single hguards (hemitted t List.mem_cons_self) hfree ho ht ts⟩
      · rw [readComponent_of_opens_none n ts ho]
        exact ih heof stack hguards (fun u hu => hemitted u (List.mem_cons_of_mem t hu))
          (hends.tail hfree) hroom'
  | nested n stop t ts c ht ho ihinside ih =>
      have hfree : t.isEof = false := heof.not_isEof ht
      have htail : forall u, u ∈ ts -> Css.Emitted u := by
        intro u hu
        exact hemitted u (List.mem_cons_of_mem t hu)
      simp only [List.length_cons] at hroom
      have hnotfull : n.isFull = false := by
        apply Nesting.isFull_eq_false_iff.mpr
        omega
      have hdeeper : n.deeper.depth + ts.length ≤ n.deeper.limit := by
        simp only [Nesting.deeper]
        omega
      have hinside := ihinside (stopsAtEof_ends c) (⟨c, t.location⟩ :: stack)
        (Opening.guards_ends ⟨c, t.location⟩ stack) htail (hends.tail hfree) hdeeper
      have hfirst := accountsFor_nested hemitted hfree ho (hends.tail hfree) hinside
      rw [← parseContents_of_not_full hnotfull] at hfirst
      have hrest := (readContents n c t.location ts).rest_suffix
      have hleft : HasEof (readContents n c t.location ts).rest := by
        rcases hfirst with ⟨taken, _, htaken, haccounts⟩
        rw [← htaken] at hends
        exact hends.of_append haccounts.eofFree
      have hlength := hrest.length_le
      apply accountsFor_cons heof ht
      · rw [readComponent_eq_parseContents n ts ho]
        exact hfirst
      · rw [readComponent_of_opens n ts ho]
        exact ih heof stack hguards (fun u hu => htail u (hrest.mem hu)) hleft (by omega)

/-!
## Style sheets
-/

theorem tokenize_eq_append (o : Options) (s : String) :
    exists front eof, Css.tokenize o s = front ++ [eof] ∧ EofFree front ∧ eof.isEof = true := by
  obtain ⟨front, hfree, hfront⟩ := Css.tokensFrom_eq_append o .start (Css.prepare s.toList)
  exact ⟨front, _, hfront, hfree, rfl⟩

theorem rest_of_standsAt_eof {taken rest front : List Token} {eof : Token}
    (heof : eof.isEof = true) (hfront : EofFree front) (htaken : EofFree taken)
    (h : taken ++ rest = front ++ [eof]) (hstands : StandsAt Token.isEof rest) :
    taken = front ∧ rest = [eof] := by
  rcases eq_append_of_append_eof heof htaken h with ⟨others, hothers, hrest⟩
  cases others with
  | nil =>
      constructor
      · rw [hothers, List.append_nil]
      · exact hrest
  | cons u others =>
      have hu : u.isEof = true := hstands u (by rw [hrest]; rfl)
      have hmem : u ∈ front := by simp [hothers]
      rw [hfront u hmem] at hu
      cases hu

/-- Under a limit that is not smaller than the number of tokens, the values of a
style sheet are its tokens, in order, but for the end and with the closing tokens
that are missing.  Each of these is the one of a construct that is reported, the
innermost first. -/
theorem readRun_flat (o : Options) (s : String) {limit : Nat}
    (hlimit : (Css.tokenize o s).length ≤ limit) :
    exists front eof, Css.tokenize o s = front ++ [eof] ∧ EofFree front ∧ eof.isEof = true ∧
      (readRun ⟨limit, 0⟩ Token.isEof (Css.tokenize o s)).rest = [eof] ∧
      (Token.runFlat (readRun ⟨limit, 0⟩ Token.isEof (Css.tokenize o s)).values).map
          Token.content =
        (front ++ (Opening.pending front).map Opening.closer).map Token.content ∧
      (readRun ⟨limit, 0⟩ Token.isEof (Css.tokenize o s)).errors =
        (Opening.pending front).map Opening.report := by
  rcases tokenize_eq_append o s with ⟨front, eof, htokens, hfree, heof⟩
  have hends : HasEof (Css.tokenize o s) := ⟨eof, by simp [htokens], heof⟩
  have hstops : StopsAtEof Token.isEof := fun t ht => ht
  obtain ⟨taken, unclosed, htaken, haccounts⟩ :=
    accountsFor_parseRun ⟨limit, 0⟩ Token.isEof hstops [] (Opening.guards_nil _)
      (Css.tokenize o s) (fun t ht => ⟨o, s, ht⟩) hends (by simpa using hlimit)
  obtain ⟨rfl, hrest⟩ := rest_of_standsAt_eof heof hfree haccounts.eofFree
    (htaken.trans htokens) (standsAt_parseRun_rest _ _ _)
  have hpending : Opening.pending taken = unclosed := by
    have hstack := haccounts.pending_eq
    rw [List.append_nil] at hstack
    exact hstack
  refine ⟨taken, eof, htokens, hfree, heof, hrest, ?_, ?_⟩
  · rw [hpending]
    exact haccounts.content_eq
  · rw [hpending]
    exact haccounts.errors_eq

/-- A bracket of another kind closes nothing: two constructs are left open. -/
theorem readRun_flat_mismatched :
    (Css.tokenize {} "f([)").length ≤ 4 ∧
      (Token.runFlat (readRun ⟨4, 0⟩ Token.isEof (Css.tokenize {} "f([)")).values).map
          Token.content =
        [(Css.function, .text "f"), (Css.openBracket, .none), (Css.closeParen, .none),
          (Css.closeBracket, .none), (Css.closeParen, .none)] ∧
      (readRun ⟨4, 0⟩ Token.isEof (Css.tokenize {} "f([)")).errors =
        [.unexpectedEof "[-block" ⟨1, 3, 2⟩, .unexpectedEof "function [f]" ⟨1, 1, 0⟩] := by
  have hcut : Css.tokenize {} "f([)" =
      [⟨Css.function, .text "f", ⟨1, 1, 0⟩, none⟩, ⟨Css.openBracket, .none, ⟨1, 3, 2⟩, none⟩,
        ⟨Css.closeParen, .none, ⟨1, 4, 3⟩, none⟩] ++ [Token.eof.placed ⟨1, 5, 4⟩] := by
    with_unfolding_all rfl
  have hlimit : (Css.tokenize {} "f([)").length ≤ 4 := by
    rw [hcut]
    decide
  obtain ⟨front, eof, htokens, _, _, _, hcontent, herrors⟩ := readRun_flat {} "f([)" hlimit
  rw [hcut] at htokens
  rcases List.append_inj' htokens rfl with ⟨rfl, _⟩
  exact ⟨hlimit, hcontent, herrors.trans (by rfl)⟩

end StyleTokens
