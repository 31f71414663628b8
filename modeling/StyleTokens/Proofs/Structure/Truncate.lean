import StyleTokens.Proofs.Structure.Counted
import StyleTokens.Proofs.Structure.Sound
import StyleTokens.Proofs.Structure.Within

/-!
# The limit on nesting

Tokens whose brackets all match are read under a limit as they are read without one,
cut off below the level that the limit admits.  What is cut off is skipped by counting
brackets of every kind, while reading looks for the one bracket that closes: on matching
brackets both end at the same token.
-/

namespace StyleTokens

/-!
## Levels
-/

def Token.mapValues (f : List Token -> List Token) (t : Token) : Token :=
  match t.payload with
  | .block b => { t with payload := .block { b with values := f b.values } }
  | .call c => { t with payload := .call { c with values := f c.values } }
  | _ => t

def Token.isConstruct (t : Token) : Bool := t.asBlock?.isSome || t.asCall?.isSome

/-- The blocks and calls that stand inside so many others, in order. -/
def constructsAt (level : Nat) (ts : List Token) : List Token :=
  match level with
  | 0 => ts.filter Token.isConstruct
  | level + 1 => ts.flatMap fun t => constructsAt level t.values

/-- Empty the blocks and calls that stand inside so many others. -/
def truncate (level : Nat) (ts : List Token) : List Token :=
  match level with
  | 0 => ts.map (Token.mapValues fun _ => [])
  | level + 1 => ts.map (Token.mapValues (truncate level))

theorem isConstruct_construct (c : Construct) (values : List Token) (l : Location) :
    (c.token values l).isConstruct = true := by
  cases c <;> rfl

theorem mapValues_construct (f : List Token -> List Token) (c : Construct)
    (values : List Token) (l : Location) :
    (c.token values l).mapValues f = c.token (f values) l := by
  cases c <;> rfl

theorem Token.IsPlain.mapValues {t : Token} (h : t.IsPlain) (f : List Token -> List Token) :
    t.mapValues f = t := by
  cases t with
  | mk kind payload location error =>
      cases payload with
      | block b => cases h.1
      | call c => cases h.2
      | _ => rfl

@[simp] theorem constructsAt_nil (level : Nat) : constructsAt level [] = [] := by
  cases level <;> rfl

@[simp] theorem truncate_nil (level : Nat) : truncate level [] = [] := by
  cases level <;> rfl

theorem constructsAt_plain {t : Token} (h : t.IsPlain) (level : Nat) (ts : List Token) :
    constructsAt level (t :: ts) = constructsAt level ts := by
  cases level with
  | zero => simp [constructsAt, Token.isConstruct, h.1, h.2]
  | succ level => simp [constructsAt, h.values]

theorem truncate_plain {t : Token} (h : t.IsPlain) (level : Nat) (ts : List Token) :
    truncate level (t :: ts) = t :: truncate level ts := by
  cases level with
  | zero => simp [truncate, h.mapValues]
  | succ level => simp [truncate, h.mapValues]

section

variable (c : Construct) (values : List Token) (l : Location) (ts : List Token)

theorem constructsAt_zero_construct :
    constructsAt 0 (c.token values l :: ts) = c.token values l :: constructsAt 0 ts := by
  simp [constructsAt, isConstruct_construct]

theorem constructsAt_succ_construct (level : Nat) :
    constructsAt (level + 1) (c.token values l :: ts) =
      constructsAt level values ++ constructsAt (level + 1) ts := by
  simp [constructsAt]

theorem truncate_zero_construct :
    truncate 0 (c.token values l :: ts) = c.token [] l :: truncate 0 ts := by
  simp [truncate, mapValues_construct]

theorem truncate_succ_construct (level : Nat) :
    truncate (level + 1) (c.token values l :: ts) =
      c.token (truncate level values) l :: truncate (level + 1) ts := by
  simp [truncate, mapValues_construct]

end

/-!
## Skipping
-/

def NoClosing (ts : List Token) : Prop :=
  forall t, Within t ts -> Css.isClosing t.kind = false

theorem NoClosing.tail {t : Token} {ts : List Token} (h : NoClosing (t :: ts)) :
    NoClosing ts := by
  intro u hu
  exact h u (within_cons.mpr (Or.inr (Or.inr hu)))

theorem NoClosing.inside {c : Construct} {values ts : List Token} {l : Location}
    (h : NoClosing (c.token values l :: ts)) : NoClosing values := by
  intro u hu
  apply h u
  apply within_cons.mpr
  rw [values_construct]
  exact Or.inr (Or.inl hu)

theorem isClosing_of_closing {t u : Token} {c : Construct} (ho : t.opens? = some c)
    (his : u.is c.closing = true) : Css.isClosing u.kind = true := by
  have hclosing := closing_of_opens? ho
  simp only [List.mem_cons, List.not_mem_nil, or_false] at hclosing
  unfold Css.isClosing
  rcases hclosing with h | h | h
  · rw [h] at his
    rw [show u.kind.same Css.closeBrace = true from his]
    rfl
  · rw [h] at his
    rw [show u.kind.same Css.closeBracket = true from his]
    simp
  · rw [h] at his
    rw [show u.kind.same Css.closeParen = true from his]
    simp

theorem skipNested_of_opens (inside : Nat) {t : Token} {c : Construct} (ts : List Token)
    (ht : t.isEof = false) (ho : t.opens? = some c) :
    skipNested inside (t :: ts) = skipNested (inside + 1) ts := by
  rw [skipNested_cons, if_neg (by simp [ht]), if_pos (by simp [ho])]

theorem skipNested_of_plain (inside : Nat) {t : Token} (ts : List Token)
    (ht : t.isEof = false) (ho : t.opens? = none) (hclosing : Css.isClosing t.kind = false) :
    skipNested inside (t :: ts) = skipNested inside ts := by
  rw [skipNested_cons, if_neg (by simp [ht]), if_neg (by simp [ho]), if_neg (by simp [hclosing])]

def skipBehind (inside : Nat) (ts : List Token) : List Token :=
  match inside with
  | 0 => ts
  | inside + 1 => skipNested inside ts

theorem skipNested_of_closing (inside : Nat) {t u : Token} {c : Construct} (ts : List Token)
    (hu : u.isEof = false) (ho : t.opens? = some c) (his : u.is c.closing = true) :
    skipNested inside (u :: ts) = skipBehind inside ts := by
  have hnone := opens?_eq_none_of_closing ho his
  have hclosing := isClosing_of_closing ho his
  rw [skipNested_cons, if_neg (by simp [hu]), if_neg (by simp [hnone]), if_pos hclosing]
  rfl

theorem skipNested_contents_of_run {n : Nesting} {t : Token} {c : Construct} {ts : List Token}
    (ho : t.opens? = some c) {l : Location} (herrors : (parseContents n c l ts).errors = [])
    {inside : Nat}
    (hrun : skipNested inside ts = skipNested inside (parseRun n.deeper c.ends ts).rest) :
    skipNested inside ts = skipBehind inside (parseContents n c l ts).rest := by
  rcases parseRun_of_contents herrors with ⟨u, hu, hclosing, hread⟩
  rw [hrun, hread]
  exact skipNested_of_closing inside _ hu ho hclosing

/-- Skipping passes over everything that a run reads. -/
theorem skipNested_parseRun (n : Nesting) (stop : Predicate) (heof : StopsAtEof stop)
    (ts : List Token) (herrors : (parseRun n stop ts).errors = [])
    (hclosing : NoClosing (parseRun n stop ts).value) (inside : Nat) :
    skipNested inside ts = skipNested inside (parseRun n stop ts).rest := by
  induction n, stop, ts using readRun_induction generalizing inside with
  | nil n stop => rw [parseRun_of_standsAt (standsAt_nil stop)]
  | stopped n stop t ts ht => rw [parseRun_of_standsAt (standsAt_cons ts ht)]
  | single n stop t ts ht ho ih =>
      rw [parseRun_cons ts ht, readComponent_of_opens_none n ts ho] at herrors hclosing ⊢
      have hplain : Css.isClosing t.kind = false := hclosing t (.here List.mem_cons_self)
      rw [skipNested_of_plain inside ts (heof.not_isEof ht) ho hplain]
      exact ih heof herrors hclosing.tail inside
  | nested n stop t ts c ht ho ihinside ih =>
      rw [parseRun_cons ts ht, readComponent_eq_parseContents n ts ho] at herrors hclosing ⊢
      rcases List.append_eq_nil_iff.mp herrors with ⟨hcontents, hothers⟩
      rcases parseRun_of_contents hcontents with ⟨u, _, _, hread⟩
      -- the opening bracket adds one to the count, and the one that closes takes it off
      have hrun := ihinside (stopsAtEof_ends c) (by rw [hread])
        (by rw [hread]; exact hclosing.inside) (inside + 1)
      rw [skipNested_of_opens inside ts (heof.not_isEof ht) ho,
        skipNested_contents_of_run ho hcontents hrun]
      exact ih heof hothers hclosing.tail inside

theorem skipNested_parseContents {n : Nesting} {t : Token} {c : Construct} {ts : List Token}
    (ho : t.opens? = some c) {l : Location} (herrors : (parseContents n c l ts).errors = [])
    (hclosing : NoClosing (parseContents n c l ts).value) :
    skipNested 0 ts = (parseContents n c l ts).rest := by
  rcases parseRun_of_contents herrors with ⟨u, _, _, hread⟩
  apply skipNested_contents_of_run ho herrors
  apply skipNested_parseRun n.deeper c.ends (stopsAtEof_ends c) ts
  · rw [hread]
  · rw [hread]
    exact hclosing

/-!
## Reading under a limit
-/

def limitReports (limit : Nat) (ts : List Token) : List StructureError :=
  ts.map fun t => .depthLimit limit t.location

/-- Values cut off at a level, the reports of what is cut off there, and the rest. -/
def cutOff (limit level : Nat) (p : Parsed (List Token)) : Parsed (List Token) :=
  ⟨truncate level p.value, limitReports limit (constructsAt level p.value), p.rest⟩

theorem cutOff_plain {t : Token} (h : t.IsPlain) (limit level : Nat) (ts : List Token)
    (p : Parsed (List Token)) :
    cutOff limit level ((Parsed.mk t [] ts).followedBy p) =
      (Parsed.mk t [] ts).followedBy (cutOff limit level p) := by
  simp only [cutOff, Parsed.followedBy, truncate_plain h, constructsAt_plain h, List.nil_append]

def cutContents (limit level : Nat) (l : Location) (p : Parsed (List Token)) :
    Parsed (List Token) :=
  match level with
  | 0 => ⟨[], [.depthLimit limit l], p.rest⟩
  | level + 1 => cutOff limit level p

def wrap (c : Construct) (l : Location) (p : Parsed (List Token)) : Parsed Token :=
  ⟨c.token p.value l, p.errors, p.rest⟩

theorem readComponent_eq_wrap (n : Nesting) {t : Token} {c : Construct} (ts : List Token)
    (ho : t.opens? = some c) :
    readComponent n t ts = wrap c t.location (parseContents n c t.location ts) :=
  readComponent_eq_parseContents n ts ho

theorem cutOff_construct (limit level : Nat) (c : Construct) (l : Location)
    (p q : Parsed (List Token)) :
    cutOff limit level ((wrap c l p).followedBy q) =
      (wrap c l (cutContents limit level l p)).followedBy (cutOff limit level q) := by
  cases level with
  | zero =>
      simp [cutOff, cutContents, wrap, Parsed.followedBy, limitReports, truncate_zero_construct,
        constructsAt_zero_construct]
  | succ level =>
      simp [cutOff, cutContents, wrap, Parsed.followedBy, limitReports, truncate_succ_construct,
        constructsAt_succ_construct]

theorem parseContents_cutOff {n : Nesting} {t : Token} {c : Construct} {ts : List Token}
    (ho : t.opens? = some c) (l : Location) (herrors : (parseContents n c l ts).errors = [])
    (hclosing : NoClosing (parseContents n c l ts).value) {limit level : Nat}
    (hlevel : n.depth + level = limit)
    (hrun : forall level', n.deeper.depth + level' = limit ->
      parseRun ⟨limit, n.deeper.depth⟩ c.ends ts =
        cutOff limit level' (parseRun n.deeper c.ends ts)) :
    parseContents ⟨limit, n.depth⟩ c l ts =
      cutContents limit level l (parseContents n c l ts) := by
  cases level with
  | zero =>
      -- the limit is reached here: the contents are skipped
      have hfull : Nesting.isFull ⟨limit, n.depth⟩ = true := by
        simp only [Nesting.isFull, decide_eq_true_eq]
        omega
      rw [parseContents_of_full hfull, skipNested_parseContents ho herrors hclosing]
      rfl
  | succ level =>
      have hfull : Nesting.isFull ⟨limit, n.depth⟩ = false := by
        apply Nesting.isFull_eq_false_iff.mpr
        show n.depth < limit
        omega
      have hdeeper : n.deeper.depth + level = limit := by
        simp only [Nesting.deeper]
        omega
      rcases parseRun_of_contents herrors with ⟨u, hu, _, hread⟩
      have hinside := hrun level hdeeper
      rw [hread] at hinside
      rw [parseContents_of_not_full hfull,
        show Nesting.deeper ⟨limit, n.depth⟩ = ⟨limit, n.deeper.depth⟩ from rfl, hinside]
      simp [cutOff, cutContents, Parsed.closedBy, hu]

/-- Reading as much again under a limit cuts the values off at the level that the
limit still admits. -/
theorem parseRun_cutOff (n : Nesting) (stop : Predicate) (heof : StopsAtEof stop)
    (ts : List Token) (hplain : forall t, t ∈ ts -> t.IsPlain)
    (herrors : (parseRun n stop ts).errors = [])
    (hclosing : NoClosing (parseRun n stop ts).value) (limit level : Nat)
    (hlevel : n.depth + level = limit) :
    parseRun ⟨limit, n.depth⟩ stop ts = cutOff limit level (parseRun n stop ts) := by
  induction n, stop, ts using readRun_induction generalizing level with
  | nil n stop =>
      rw [parseRun_of_standsAt (standsAt_nil stop), parseRun_of_standsAt (standsAt_nil stop)]
      simp [cutOff, limitReports]
  | stopped n stop t ts ht =>
      rw [parseRun_of_standsAt (standsAt_cons ts ht), parseRun_of_standsAt (standsAt_cons ts ht)]
      simp [cutOff, limitReports]
  | single n stop t ts ht ho ih =>
      rw [parseRun_cons ts ht, readComponent_of_opens_none n ts ho] at herrors hclosing
      rw [parseRun_cons (n := n) ts ht, readComponent_of_opens_none n ts ho,
        parseRun_cons (n := ⟨limit, n.depth⟩) ts ht, readComponent_of_opens_none _ ts ho,
        cutOff_plain (hplain t List.mem_cons_self)]
      have hothers := ih heof (fun u hu => hplain u (List.mem_cons_of_mem t hu)) herrors
        hclosing.tail level hlevel
      exact congrArg (Parsed.followedBy _) hothers
  | nested n stop t ts c ht ho ihinside ih =>
      have htail : forall u, u ∈ ts -> u.IsPlain := by
        intro u hu
        exact hplain u (List.mem_cons_of_mem t hu)
      have hsuffix := (readContents n c t.location ts).rest_suffix
      rw [parseRun_cons ts ht, readComponent_eq_wrap n ts ho] at herrors hclosing
      rcases List.append_eq_nil_iff.mp herrors with ⟨hcontents, hothers⟩
      rcases parseRun_of_contents hcontents with ⟨u, _, _, hread⟩
      have hcut := parseContents_cutOff ho t.location hcontents hclosing.inside hlevel
        fun level' hlevel' => ihinside (stopsAtEof_ends c) htail (by rw [hread])
          (by rw [hread]; exact hclosing.inside) level' hlevel'
      have hbehind := ih heof (fun u hu => htail u (hsuffix.mem hu)) hothers hclosing.tail level
        hlevel
      have hrest : (cutContents limit level t.location (parseContents n c t.location ts)).rest =
          (readContents n c t.location ts).rest := by
        cases level <;> rfl
      rw [parseRun_cons (n := n) ts ht, readComponent_eq_wrap n ts ho,
        parseRun_cons (n := ⟨limit, n.depth⟩) ts ht, readComponent_eq_wrap _ ts ho, hcut,
        cutOff_construct]
      apply congrArg (Parsed.followedBy _)
      show parseRun _ stop (cutContents limit level t.location _).rest = _
      rw [hrest]
      exact hbehind

/-!
## Style sheets
-/

/-- A style sheet whose brackets all match is read under a limit up to the same token,
with the blocks and calls emptied that stand inside as many others as the limit admits.
Each of them is reported once, in order.  A counter of open constructs gets back to
where it started. -/
theorem readRun_limit (o : Options) (s : String) {unlimited : Nat}
    (hvalid : (readRun ⟨unlimited, 0⟩ Token.isEof (Css.tokenize o s)).errors = [])
    (hclosing : forall t, Within t (readRun ⟨unlimited, 0⟩ Token.isEof (Css.tokenize o s)).values ->
      Css.isClosing t.kind = false)
    (limit : Nat) :
    (readRun ⟨limit, 0⟩ Token.isEof (Css.tokenize o s)).rest =
        (readRun ⟨unlimited, 0⟩ Token.isEof (Css.tokenize o s)).rest ∧
      (readRun ⟨limit, 0⟩ Token.isEof (Css.tokenize o s)).values =
        truncate limit (readRun ⟨unlimited, 0⟩ Token.isEof (Css.tokenize o s)).values ∧
      (readRun ⟨limit, 0⟩ Token.isEof (Css.tokenize o s)).errors =
        (constructsAt limit
          (readRun ⟨unlimited, 0⟩ Token.isEof (Css.tokenize o s)).values).map
          (fun t => .depthLimit limit t.location) ∧
      (readCounting ⟨limit, 0⟩ Token.isEof (Css.tokenize o s)).parsed =
        (readRun ⟨limit, 0⟩ Token.isEof (Css.tokenize o s)).parsed ∧
      (readCounting ⟨limit, 0⟩ Token.isEof (Css.tokenize o s)).counter = ⟨limit, 0⟩ := by
  have hplain : forall t, t ∈ Css.tokenize o s -> t.IsPlain := by
    intro t ht
    exact Css.Emitted.isPlain ⟨o, s, ht⟩
  have hread := parseRun_cutOff ⟨unlimited, 0⟩ Token.isEof (fun t ht => ht) (Css.tokenize o s)
    hplain hvalid hclosing limit limit (Nat.zero_add limit)
  rcases readCounting_eq ⟨limit, 0⟩ Token.isEof (Css.tokenize o s) with ⟨hparsed, hcounter⟩
  refine ⟨?_, ?_, ?_, hparsed, hcounter⟩
  · exact congrArg Parsed.rest hread
  · exact congrArg Parsed.value hread
  · exact congrArg Parsed.errors hread

/-- A call with a bracket in it is emptied and reported. -/
theorem readRun_limit_one :
    (readRun ⟨3, 0⟩ Token.isEof (Css.tokenize {} "(f([]))")).errors = [] ∧
      (readRun ⟨1, 0⟩ Token.isEof (Css.tokenize {} "(f([]))")).values =
        [(Construct.block Css.openParen Css.closeParen).token
          [(Construct.call "f").token [] ⟨1, 2, 1⟩] ⟨1, 1, 0⟩] ∧
      (readRun ⟨1, 0⟩ Token.isEof (Css.tokenize {} "(f([]))")).errors =
        [.depthLimit 1 ⟨1, 2, 1⟩] ∧
      (readCounting ⟨1, 0⟩ Token.isEof (Css.tokenize {} "(f([]))")).counter = ⟨1, 0⟩ := by
  have hcut : Css.tokenize {} "(f([]))" =
      [⟨Css.openParen, .none, ⟨1, 1, 0⟩, none⟩, ⟨Css.function, .text "f", ⟨1, 2, 1⟩, none⟩,
        ⟨Css.openBracket, .none, ⟨1, 4, 3⟩, none⟩, ⟨Css.closeBracket, .none, ⟨1, 5, 4⟩, none⟩,
        ⟨Css.closeParen, .none, ⟨1, 6, 5⟩, none⟩, ⟨Css.closeParen, .none, ⟨1, 7, 6⟩, none⟩,
        Token.eof.placed ⟨1, 8, 7⟩] := by
    with_unfolding_all rfl
  have hread : parseRun ⟨3, 0⟩ Token.isEof (Css.tokenize {} "(f([]))") =
      ⟨[(Construct.block Css.openParen Css.closeParen).token
        [(Construct.call "f").token
          [(Construct.block Css.openBracket Css.closeBracket).token [] ⟨1, 4, 3⟩] ⟨1, 2, 1⟩]
        ⟨1, 1, 0⟩], [], [Token.eof.placed ⟨1, 8, 7⟩]⟩ := by
    rw [hcut, parseRun_cons _ rfl, readComponent_eq_wrap _ _ rfl, parseContents_of_not_full rfl,
      parseRun_cons _ rfl, readComponent_eq_wrap _ _ rfl, parseContents_of_not_full rfl,
      parseRun_cons _ rfl, readComponent_eq_wrap _ _ rfl, parseContents_of_not_full rfl,
      parseRun_of_standsAt (standsAt_cons _ rfl), closedBy_cons rfl]
    simp only [wrap, Parsed.followedBy, List.nil_append]
    rw [parseRun_of_standsAt (standsAt_cons _ rfl), closedBy_cons rfl]
    simp only [List.nil_append]
    rw [parseRun_of_standsAt (standsAt_cons _ rfl), closedBy_cons rfl]
    simp only [List.nil_append]
    rw [parseRun_of_standsAt (standsAt_cons _ rfl)]
    rfl
  have hvalues := congrArg Parsed.value hread
  have hvalid := congrArg Parsed.errors hread
  have hclosing : NoClosing (parseRun ⟨3, 0⟩ Token.isEof (Css.tokenize {} "(f([]))")).value := by
    intro t ht
    rw [hvalues] at ht
    simp only [within_cons, values_construct, not_within_nil, or_false] at ht
    rcases ht with rfl | rfl | rfl <;> rfl
  obtain ⟨_, hcut, herrors, _, hcounter⟩ := readRun_limit {} "(f([]))" hvalid hclosing 1
  constructor
  · exact hvalid
  · constructor
    · exact hcut.trans (congrArg (truncate 1) hvalues)
    · exact ⟨herrors.trans (congrArg (limitReports 1 ∘ constructsAt 1) hvalues), hcounter⟩

end StyleTokens
