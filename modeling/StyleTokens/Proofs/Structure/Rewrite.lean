import StyleTokens.Proofs.Css.Lexeme
import StyleTokens.Proofs.Structure.Run

/-!
# Rewriting tokens

Comments may be dropped and locations may be moved, in a run of tokens and in
everything that is read from it.  Reading never looks at either, so it commutes
with a rewriting: it makes no difference whether the tokens are rewritten or the
rules that were read from them.  This module goes up to runs of values.
-/

namespace StyleTokens

/-- What happens to the tokens of a run, at every depth. -/
structure Rewrite where
  dropsComments : Bool
  move : Location -> Location

namespace Rewrite

/-- Is the token a comment that is left out? -/
def drops (r : Rewrite) (t : Token) : Bool :=
  r.dropsComments && (t.is Css.comment && t.isBlank)

mutual

def token (r : Rewrite) (t : Token) : Token :=
  match t with
  | ⟨kind, payload, location, error⟩ => ⟨kind, r.payload payload, r.move location, error⟩

def payload (r : Rewrite) (p : Payload) : Payload :=
  match p with
  | .inner t => .inner (r.token t)
  | .block b => .block (r.block b)
  | .call c => .call (r.call c)
  | p => p

def block (r : Rewrite) (b : Block) : Block :=
  match b with
  | ⟨opening, closing, values, location⟩ => ⟨opening, closing, r.run values, r.move location⟩

def call (r : Rewrite) (c : Call) : Call :=
  match c with
  | ⟨name, values, location⟩ => ⟨name, r.run values, r.move location⟩

def run (r : Rewrite) (ts : List Token) : List Token :=
  match ts with
  | [] => []
  | t :: ts => if r.drops t then r.run ts else r.token t :: r.run ts

end

def error (r : Rewrite) (e : StructureError) : StructureError :=
  match e with
  | .unexpectedEof construct l => .unexpectedEof construct (r.move l)
  | .unclosed construct l => .unclosed construct (r.move l)
  | .exhausted construct => .exhausted construct
  | .unexpectedToken expected found l => .unexpectedToken expected found (r.move l)
  | .missingColon name l => .missingColon name (r.move l)
  | .emptyDeclaration name l => .emptyDeclaration name (r.move l)
  | .illegalToken token l => .illegalToken token (r.move l)
  | .lexical token message l => .lexical token message (r.move l)
  | .depthLimit limit l => .depthLimit limit (r.move l)

def rule (r : Rewrite) (u : Rule) : Rule :=
  match u with
  | .qualified q =>
      .qualified
        { prelude := r.run q.prelude, block := r.block q.block, location := r.move q.location }
  | .named q =>
      .named
        { q with
          prelude := r.run q.prelude, block := q.block.map r.block, location := r.move q.location }
  | .unknown l => .unknown (r.move l)

def parsed (r : Rewrite) (f : α -> α) (p : Parsed α) : Parsed α :=
  ⟨f p.value, p.errors.map r.error, r.run p.rest⟩

variable (r : Rewrite)

/-!
## Tokens
-/

@[simp] theorem token_kind (t : Token) : (r.token t).kind = t.kind := by
  cases t
  rfl

@[simp] theorem token_location (t : Token) : (r.token t).location = r.move t.location := by
  cases t
  rfl

@[simp] theorem token_is (t : Token) (k : Kind) : (r.token t).is k = t.is k := by
  simp [Token.is]

@[simp] theorem token_isEof (t : Token) : (r.token t).isEof = t.isEof :=
  r.token_is t .eof

@[simp] theorem token_isBlank (t : Token) : (r.token t).isBlank = t.isBlank := by
  simp [Token.isBlank]

@[simp] theorem token_isTerminator (t : Token) :
    (r.token t).isTerminator = t.isTerminator := by
  simp [Token.isTerminator]

theorem token_asBlock?_eq_none {t : Token} (h : t.asBlock? = none) :
    (r.token t).asBlock? = none := by
  rcases t with ⟨kind, payload, location, error⟩
  cases payload with
  | block b => cases h
  | _ => rfl

theorem text_numeric {t : Token} (h : Css.Numeric t) : (r.token t).text = t.text := by
  cases h <;> rfl

theorem text_token {t : Token} (h : Css.Emitted t) : (r.token t).text = t.text := by
  rcases h.cases with hlexeme | hremark
  · cases hlexeme with
    | numeric hnumeric => exact r.text_numeric hnumeric
    | badNumber hnumeric =>
        rename_i u _ _
        show (r.token u).text = u.text
        exact r.text_numeric hnumeric
    | _ => rfl
  · cases hremark
    rfl

theorem token_opens? {t : Token} (h : Css.Emitted t) : (r.token t).opens? = t.opens? := by
  simp [Token.opens?, r.text_token h]

theorem isBlank_of_drops {t : Token} (h : r.drops t = true) : t.isBlank = true := by
  simp only [drops, Bool.and_eq_true] at h
  exact h.2.2

theorem same_of_drops {t : Token} (h : r.drops t = true) (k : Kind) :
    t.kind.same k = Css.comment.same k := by
  simp only [drops, Bool.and_eq_true] at h
  exact Kind.same_congr h.2.1 k

theorem not_is_of_drops {t : Token} (h : r.drops t = true) {k : Kind}
    (hk : Css.comment.same k = false) : t.is k = false := by
  rw [Token.is, r.same_of_drops h, hk]

theorem opens?_of_drops {t : Token} (h : r.drops t = true) : t.opens? = none := by
  simp only [Token.opens?, Css.closingOf?, Token.is, r.same_of_drops h]
  rfl

theorem not_drops_of_opens {t : Token} {c : Construct} (h : t.opens? = some c) :
    r.drops t = false := by
  rw [Bool.eq_false_iff]
  intro hdrops
  rw [r.opens?_of_drops hdrops] at h
  cases h

/-!
## Runs of tokens
-/

@[simp] theorem run_nil : r.run [] = [] := rfl

theorem run_of_drops {t : Token} (h : r.drops t = true) (ts : List Token) :
    r.run (t :: ts) = r.run ts := by
  rw [run, if_pos h]

theorem run_cons {t : Token} (h : r.drops t = false) (ts : List Token) :
    r.run (t :: ts) = r.token t :: r.run ts := by
  rw [run, if_neg (by simp [h])]

theorem run_eq_map_filter (ts : List Token) :
    r.run ts = (ts.filter fun t => !r.drops t).map r.token := by
  induction ts with
  | nil => rfl
  | cons t ts ih =>
      cases h : r.drops t with
      | true =>
          rw [r.run_of_drops h, ih]
          simp [h]
      | false =>
          rw [r.run_cons h, ih]
          simp [h]

theorem run_append (a b : List Token) : r.run (a ++ b) = r.run a ++ r.run b := by
  simp [run_eq_map_filter]

theorem run_reverse (ts : List Token) : r.run ts.reverse = (r.run ts).reverse := by
  simp [run_eq_map_filter, List.filter_reverse]

theorem run_dropWhile_isBlank (ts : List Token) :
    r.run (ts.dropWhile Token.isBlank) = (r.run ts).dropWhile Token.isBlank := by
  induction ts with
  | nil => rfl
  | cons t ts ih =>
      cases hblank : t.isBlank with
      | true =>
          rw [List.dropWhile_cons, if_pos hblank, ih]
          cases h : r.drops t with
          | true => rw [r.run_of_drops h]
          | false =>
              rw [r.run_cons h, List.dropWhile_cons, if_pos (by simp [hblank])]
      | false =>
          have h : r.drops t = false := by
            rw [Bool.eq_false_iff]
            intro h
            rw [r.isBlank_of_drops h] at hblank
            cases hblank
          rw [List.dropWhile_cons, if_neg (by simp [hblank]), r.run_cons h,
            List.dropWhile_cons, if_neg (by simp [hblank])]

theorem run_trim (ts : List Token) : r.run (Queue.trim ts) = Queue.trim (r.run ts) := by
  simp only [Queue.trim, Queue.trimEnd, run_dropWhile_isBlank, run_reverse]

/-!
## Tokens that were just cut
-/

theorem token_placed {t : Token} (h : Css.Lexeme t ∨ Css.Remark t)
    (l : Location) : r.token (t.placed l) = t.placed (r.move l) := by
  have hnumeric : forall {u : Token}, Css.Numeric u ->
      r.token (u.placed l) = u.placed (r.move l) := by
    intro u hu
    cases hu <;> rfl
  rcases h with hlexeme | hremark
  · cases hlexeme with
    | numeric hu => exact hnumeric hu
    | badNumber hu =>
        rename_i u _ _
        show Token.mk _ (.inner (r.token (u.placed l))) _ _ = _
        rw [hnumeric hu]
        rfl
    | _ => rfl
  · cases hremark
    rfl

theorem run_placed {ts : List Token}
    (h : forall t, t ∈ ts -> (Css.Lexeme t ∨ Css.Remark t) ∧ r.drops t = false) (l : Location) :
    r.run (ts.map fun t => t.placed l) = ts.map fun t => t.placed (r.move l) := by
  induction ts with
  | nil => rfl
  | cons t ts ih =>
      rcases h t List.mem_cons_self with ⟨hcut, hdrops⟩
      have hdrops' : r.drops (t.placed l) = false := by
        rw [drops, Token.is, Token.isBlank, Token.placed_kind]
        exact hdrops
      rw [List.map_cons, r.run_cons hdrops', r.token_placed hcut,
        ih fun u hu => h u (List.mem_cons_of_mem t hu), List.map_cons]

/-!
## Values
-/

/-- A test of tokens without a block that a rewriting does not touch. -/
structure Respects (stop : Predicate) : Prop where
  token : forall t, t.asBlock? = none -> stop (r.token t) = stop t
  dropped : forall t, t.asBlock? = none -> r.drops t = true -> stop t = false

variable {r}

theorem Respects.not_drops {stop : Predicate} (h : r.Respects stop) {t : Token}
    (hblock : t.asBlock? = none) (ht : stop t = true) : r.drops t = false := by
  rw [Bool.eq_false_iff]
  intro hdrops
  rw [h.dropped t hblock hdrops] at ht
  cases ht

theorem not_ends_of_drops {t u : Token} {c : Construct} (ho : t.opens? = some c)
    (h : r.drops u = true) : c.ends u = false := by
  have hclosing : Css.comment.same c.closing = false := by
    have hall : forall k, k ∈ [Css.closeBrace, Css.closeBracket, Css.closeParen] ->
        Css.comment.same k = false := by decide
    exact hall _ (closing_of_opens? ho)
  have heof : u.isEof = false := r.not_is_of_drops h (by decide)
  simp [Construct.ends, heof, r.not_is_of_drops h hclosing]

theorem respects_ends_of_opens? {t : Token} {c : Construct} (h : t.opens? = some c) :
    r.Respects c.ends where
  token u _ := by simp [Construct.ends]
  dropped _ _ hu := not_ends_of_drops h hu

theorem not_isClosing_of_drops {t : Token} (h : r.drops t = true) :
    Css.isClosing t.kind = false := by
  simp only [Css.isClosing, r.same_of_drops h]
  decide

theorem skipNested_run (inside : Nat) (ts : List Token)
    (hemitted : forall t, t ∈ ts -> Css.Emitted t) :
    skipNested inside (r.run ts) = r.run (skipNested inside ts) := by
  induction ts generalizing inside with
  | nil => rfl
  | cons t ts ih =>
      have hih := fun inside => ih inside fun u hu => hemitted u (List.mem_cons_of_mem t hu)
      have hopens := r.token_opens? (hemitted t List.mem_cons_self)
      cases hdrops : r.drops t with
      | true =>
          have heof : t.isEof = false := r.not_is_of_drops hdrops (by decide)
          rw [r.run_of_drops hdrops, hih, skipNested_cons]
          simp [heof, r.opens?_of_drops hdrops, not_isClosing_of_drops hdrops]
      | false =>
          rw [r.run_cons hdrops, skipNested_cons, skipNested_cons]
          simp only [token_isEof, hopens, token_kind]
          split
          · rw [r.run_cons hdrops]
          · split
            · exact hih (inside + 1)
            · split
              · cases inside with
                | zero => rfl
                | succ inside => exact hih inside
              · exact hih inside

theorem closedBy_parsed {t : Token} {c : Construct} (ho : t.opens? = some c) (l : Location)
    {p : Parsed (List Token)} (hstands : StandsAt c.ends p.rest) :
    (r.parsed r.run p).closedBy c (r.move l) = r.parsed r.run (p.closedBy c l) := by
  rcases p with ⟨values, errors, rest⟩
  cases rest with
  | nil => simp [Parsed.closedBy, parsed, error]
  | cons u rest =>
      have hdrops : r.drops u = false := by
        rw [Bool.eq_false_iff]
        intro hdrops
        have hends : c.ends u = true := hstands u rfl
        rw [not_ends_of_drops ho hdrops] at hends
        cases hends
      simp only [Parsed.closedBy, parsed, r.run_cons hdrops, token_isEof]
      split
      · simp [error, r.run_cons hdrops]
      · rfl

theorem token_construct (c : Construct) (values : List Token) (l : Location) :
    r.token (c.token values l) = c.token (r.run values) (r.move l) := by
  cases c <;> rfl

theorem not_drops_construct (c : Construct) (values : List Token) (l : Location) :
    r.drops (c.token values l) = false := by
  have hkind : (c.token values l).is Css.comment = false := by
    cases c <;> rfl
  simp [drops, hkind]

theorem parsed_followedBy {p : Parsed Token} (h : r.drops p.value = false)
    (q : Parsed (List Token)) :
    r.parsed r.run (p.followedBy q) = (r.parsed r.token p).followedBy (r.parsed r.run q) := by
  simp [parsed, Parsed.followedBy, r.run_cons h]

theorem parseContents_run_of_run {n : Nesting} {t : Token} {c : Construct} {ts : List Token}
    (hemitted : forall u, u ∈ ts -> Css.Emitted u) (ho : t.opens? = some c) (l : Location)
    (hrun : parseRun n.deeper c.ends (r.run ts) =
      r.parsed r.run (parseRun n.deeper c.ends ts)) :
    parseContents n c (r.move l) (r.run ts) = r.parsed r.run (parseContents n c l ts) := by
  cases hfull : n.isFull with
  | true =>
      rw [parseContents_of_full hfull, parseContents_of_full hfull, skipNested_run 0 ts hemitted]
      rfl
  | false =>
      rw [parseContents_of_not_full hfull, parseContents_of_not_full hfull, hrun]
      exact closedBy_parsed ho l (standsAt_parseRun_rest n.deeper c.ends ts)

/-- Rewriting commutes with reading a run. -/
theorem parseRun_run (n : Nesting) (stop : Predicate) (hstop : r.Respects stop)
    (ts : List Token) (hemitted : forall t, t ∈ ts -> Css.Emitted t) :
    parseRun n stop (r.run ts) = r.parsed r.run (parseRun n stop ts) := by
  induction n, stop, ts using readRun_induction with
  | nil n stop =>
      rw [run_nil, parseRun_of_standsAt (standsAt_nil stop)]
      rfl
  | stopped n stop t ts ht =>
      have hblock := (hemitted t List.mem_cons_self).asBlock?_eq_none
      have hdrops := hstop.not_drops hblock ht
      have hstop' : stop (r.token t) = true := by rw [hstop.token t hblock, ht]
      rw [r.run_cons hdrops, parseRun_of_standsAt (standsAt_cons _ hstop'),
        parseRun_of_standsAt (standsAt_cons _ ht), parsed, r.run_cons hdrops]
      rfl
  | single n stop t ts ht ho ih =>
      have hread := ih hstop fun u hu => hemitted u (List.mem_cons_of_mem t hu)
      have ht' := hemitted t List.mem_cons_self
      rw [parseRun_cons ts ht, readComponent_of_opens_none n ts ho]
      cases hdrops : r.drops t with
      | true =>
          rw [r.run_of_drops hdrops, hread]
          simp [parsed, Parsed.followedBy, r.run_of_drops hdrops]
      | false =>
          have hstop' : stop (r.token t) = false := by
            rw [hstop.token t ht'.asBlock?_eq_none, ht]
          have ho' : (r.token t).opens? = none := by rw [r.token_opens? ht', ho]
          rw [r.run_cons hdrops, parseRun_cons _ hstop', readComponent_of_opens_none n _ ho',
            parsed_followedBy hdrops, hread]
          rfl
  | nested n stop t ts c ht ho ihinside ih =>
      have ht' := hemitted t List.mem_cons_self
      have htail : forall u, u ∈ ts -> Css.Emitted u :=
        fun u hu => hemitted u (List.mem_cons_of_mem t hu)
      have hstop' : stop (r.token t) = false := by
        rw [hstop.token t ht'.asBlock?_eq_none, ht]
      have ho' : (r.token t).opens? = some c := by rw [r.token_opens? ht', ho]
      have hcontents := parseContents_run_of_run htail ho t.location
        (ihinside (respects_ends_of_opens? ho) htail)
      have hothers := ih hstop fun u hu =>
        htail u ((readContents n c t.location ts).rest_suffix.mem hu)
      rw [r.run_cons (r.not_drops_of_opens ho), parseRun_cons _ hstop', parseRun_cons ts ht,
        readComponent_eq_parseContents n _ ho', readComponent_eq_parseContents n ts ho,
        parsed_followedBy (not_drops_construct c _ _), token_location, hcontents]
      show Parsed.followedBy _ (parseRun n stop (r.run (parseContents n c t.location ts).rest)) = _
      rw [show (parseContents n c t.location ts).rest =
        (readContents n c t.location ts).rest from rfl, hothers]
      simp only [parsed, token_construct]
      rfl

end Rewrite

end StyleTokens
