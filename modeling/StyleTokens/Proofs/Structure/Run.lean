import StyleTokens.Proofs.Queue.Standing
import StyleTokens.Structure.StyleBlock

/-!
# Runs of component values

Reading a run is a recursion on single values: a value that is read is put in
front of those read from what it leaves.  The equations here say so of the
values, the errors and the rest at once, and the induction principle follows the
two ways in which a run goes on: behind a single token, or inside a construct and
behind it.
-/

namespace StyleTokens

/-!
## What was read
-/

namespace Parsed

def followedBy (p : Parsed Token) (q : Parsed (List Token)) : Parsed (List Token) :=
  ⟨p.value :: q.value, p.errors ++ q.errors, q.rest⟩

def closedBy (c : Construct) (l : Location) (p : Parsed (List Token)) : Parsed (List Token) :=
  match p.rest with
  | [] => ⟨p.value, p.errors ++ [.unclosed c.title l], []⟩
  | t :: rest =>
      if t.isEof then ⟨p.value, p.errors ++ [.unexpectedEof c.title l], t :: rest⟩
      else ⟨p.value, p.errors, rest⟩

end Parsed

namespace Run

def parsed {input : List Token} (r : Run input) : Parsed (List Token) :=
  ⟨r.values, r.errors, r.rest⟩

end Run

namespace Contents

def parsed {input : List Token} (c : Contents input) : Parsed (List Token) :=
  ⟨c.values, c.errors, c.rest⟩

theorem parsed_ofRun (c : Construct) (l : Location) {input : List Token} (run : Run input) :
    (Contents.ofRun c l run).parsed = run.parsed.closedBy c l := by
  rcases run with ⟨components, rest, h⟩
  cases rest with
  | nil => rfl
  | cons t rest =>
      simp only [Contents.ofRun, Parsed.closedBy, Run.parsed]
      split <;> rfl

end Contents

def parseRun (n : Nesting) (stop : Predicate) (ts : List Token) : Parsed (List Token) :=
  (readRun n stop ts).parsed

def parseContents (n : Nesting) (c : Construct) (l : Location) (ts : List Token) :
    Parsed (List Token) :=
  (readContents n c l ts).parsed

/-!
## Equations
-/

theorem Nesting.isFull_eq_false_iff {n : Nesting} : n.isFull = false ↔ n.depth < n.limit := by
  rw [Nesting.isFull, decide_eq_false_iff_not, Nat.not_le]

theorem Construct.is_closing_of_ends {c : Construct} {t : Token} (h : c.ends t = true)
    (ht : t.isEof = false) : t.is c.closing = true := by
  rw [Construct.ends, ht, Bool.false_or] at h
  exact h

theorem parseRun_of_standsAt {n : Nesting} {stop : Predicate} {ts : List Token}
    (h : StandsAt stop ts) : parseRun n stop ts = ⟨[], [], ts⟩ := by
  cases ts with
  | nil =>
      rw [parseRun, readRun_nil]
      rfl
  | cons t ts =>
      rw [parseRun, readRun_of_stop ts (h t rfl)]
      rfl

theorem parseRun_cons {n : Nesting} {stop : Predicate} {t : Token} (ts : List Token)
    (h : stop t = false) :
    parseRun n stop (t :: ts) =
      (readComponent n t ts).followedBy (parseRun n stop (readComponent n t ts).rest) := by
  cases ho : t.opens? with
  | none =>
      rw [parseRun, readRun_of_opens_none ts h ho, readComponent_of_opens_none n ts ho]
      rfl
  | some c =>
      rw [parseRun, readRun_of_opens ts h ho, readComponent_of_opens n ts ho]
      rfl

theorem parseContents_of_full {n : Nesting} (h : n.isFull = true) (c : Construct)
    (l : Location) (ts : List Token) :
    parseContents n c l ts = ⟨[], [.depthLimit n.limit l], skipNested 0 ts⟩ := by
  rw [parseContents, readContents, if_pos h]
  rfl

theorem parseContents_of_not_full {n : Nesting} (h : n.isFull = false) (c : Construct)
    (l : Location) (ts : List Token) :
    parseContents n c l ts = (parseRun n.deeper c.ends ts).closedBy c l := by
  rw [parseContents, readContents, if_neg (by simp [h]), Contents.parsed_ofRun]
  rfl

theorem readComponent_eq_parseContents (n : Nesting) {t : Token} {c : Construct}
    (ts : List Token) (ho : t.opens? = some c) :
    readComponent n t ts =
      ⟨c.token (parseContents n c t.location ts).value t.location,
        (parseContents n c t.location ts).errors, (parseContents n c t.location ts).rest⟩ :=
  readComponent_of_opens n ts ho

theorem opens?_of_openBrace {t : Token} (h : t.is Css.openBrace = true) :
    t.opens? = some (.block t.kind Css.closeBrace) := by
  have hkind : t.kind.same Css.openBrace = true := h
  simp only [Token.opens?, Css.closingOf?, hkind]
  rfl

theorem closing_of_opens? {t : Token} {c : Construct} (h : t.opens? = some c) :
    c.closing ∈ [Css.closeBrace, Css.closeBracket, Css.closeParen] := by
  unfold Token.opens? at h
  split at h
  · rename_i closing hclosing
    rcases Option.some.inj h with rfl
    show closing ∈ _
    unfold Css.closingOf? at hclosing
    split at hclosing
    · simp [← Option.some.inj hclosing]
    · split at hclosing
      · simp [← Option.some.inj hclosing]
      · split at hclosing
        · simp [← Option.some.inj hclosing]
        · cases hclosing
  · split at h
    · rcases Option.some.inj h with rfl
      simp [Construct.closing]
    · cases h

theorem skipNested_cons (inside : Nat) (t : Token) (ts : List Token) :
    skipNested inside (t :: ts) =
      if t.isEof then t :: ts
      else if t.opens?.isSome then skipNested (inside + 1) ts
      else if Css.isClosing t.kind then
        match inside with
        | 0 => ts
        | inside + 1 => skipNested inside ts
      else skipNested inside ts :=
  skipNested.eq_def inside (t :: ts)

/-!
## Induction
-/

@[elab_as_elim]
theorem readRun_induction {P : Nesting -> Predicate -> List Token -> Prop}
    (nil : forall n stop, P n stop [])
    (stopped : forall n stop t ts, stop t = true -> P n stop (t :: ts))
    (single : forall n stop t ts, stop t = false -> t.opens? = none -> P n stop ts ->
      P n stop (t :: ts))
    (nested : forall n stop t ts c, stop t = false -> t.opens? = some c ->
      P n.deeper c.ends ts -> P n stop (readContents n c t.location ts).rest ->
      P n stop (t :: ts))
    (n : Nesting) (stop : Predicate) (input : List Token) : P n stop input := by
  induction n, stop, input using readRun.induct with
  | case1 n stop => exact nil n stop
  | case2 n stop t ts h => exact stopped n stop t ts h
  | case3 n stop t ts h ho ih => exact single n stop t ts (by simpa using h) ho ih
  | case4 n stop t ts h c ho inner ihinside ih =>
      exact nested n stop t ts c (by simpa using h) ho ihinside ih

/-- Induction for what does not look inside constructs: a run goes on behind the value
that its first token starts. -/
@[elab_as_elim]
theorem parseRun_induction (n : Nesting) (stop : Predicate) {P : List Token -> Prop}
    (nil : P [])
    (stopped : forall t ts, stop t = true -> P (t :: ts))
    (value : forall t ts, stop t = false -> P (readComponent n t ts).rest -> P (t :: ts))
    (ts : List Token) : P ts := by
  induction hlen : ts.length using Nat.strongRecOn generalizing ts with
  | ind len ih =>
      cases ts with
      | nil => exact nil
      | cons t ts =>
          cases h : stop t with
          | true => exact stopped t ts h
          | false =>
              apply value t ts h
              apply ih (readComponent n t ts).rest.length _ _ rfl
              rw [<- hlen]
              exact Nat.lt_succ_of_le (readComponent_rest_suffix n t ts).length_le

theorem standsAt_parseRun_rest (n : Nesting) (stop : Predicate) (ts : List Token) :
    StandsAt stop (parseRun n stop ts).rest := by
  induction ts using parseRun_induction n stop with
  | nil =>
      rw [parseRun_of_standsAt (standsAt_nil stop)]
      exact standsAt_nil stop
  | stopped t ts h =>
      rw [parseRun_of_standsAt (standsAt_cons ts h)]
      exact standsAt_cons ts h
  | value t ts h ih =>
      rw [parseRun_cons ts h]
      exact ih

end StyleTokens
