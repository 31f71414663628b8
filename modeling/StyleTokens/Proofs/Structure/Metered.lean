import StyleTokens.Proofs.Structure.Counted
import StyleTokens.Proofs.Structure.Resync

/-!
# Reading with a meter

One counter of open constructs can serve a whole list of rules or a whole style block.
It is handed on from reader to reader, and it remembers how far it ever went up.  What
is read with such a meter is what is read with a nesting that every reader gets from
its caller; the counter comes back as it was, and it never passed the limit.
-/

namespace StyleTokens

/-!
## Meters
-/

/-- A counter of open constructs with the greatest count it has ever shown. -/
structure Meter where
  nesting : Nesting
  highest : Nat

/-- A reader that counts what it enters and leaves. -/
abbrev Metered (α : Type) := StateM Meter α

namespace Meter

def start (n : Nesting) : Meter := ⟨n, n.depth⟩

def enter? (m : Meter) : Option Meter :=
  m.nesting.enter?.map fun n => ⟨n, max m.highest n.depth⟩

def leave (m : Meter) : Meter := ⟨m.nesting.leave, m.highest⟩

/-- The count is what it was, and it was never beyond the limit on the way. -/
structure Restored (m m' : Meter) : Prop where
  nesting : m'.nesting = m.nesting
  highest_le : m'.highest ≤ max m.highest m.nesting.limit

theorem Restored.refl (m : Meter) : m.Restored m := ⟨rfl, Nat.le_max_left _ _⟩

theorem Restored.trans {m m' m'' : Meter} (h : m.Restored m') (h' : m'.Restored m'') :
    m.Restored m'' where
  nesting := h'.nesting.trans h.nesting
  highest_le := by
    have hlast := h'.highest_le
    have hfirst := h.highest_le
    rw [h.nesting] at hlast
    omega

theorem enter?_of_full {m : Meter} (h : m.nesting.isFull = true) : m.enter? = none := by
  rw [enter?, Nesting.enter?, if_pos h]
  rfl

theorem enter?_of_not_full {m : Meter} (h : m.nesting.isFull = false) :
    m.enter? = some ⟨m.nesting.deeper, max m.highest (m.nesting.depth + 1)⟩ := by
  rw [enter?, Nesting.enter?, if_neg (by simp [h])]
  rfl

theorem Restored.leave {m m' : Meter} (hfull : m.nesting.isFull = false)
    (h : Restored ⟨m.nesting.deeper, max m.highest (m.nesting.depth + 1)⟩ m') :
    m.Restored m'.leave where
  nesting := by
    rw [Meter.leave, h.nesting, Nesting.leave_deeper]
  highest_le := by
    have hlimit := Nesting.isFull_eq_false_iff.mp hfull
    have hinside : m'.highest ≤ max (max m.highest (m.nesting.depth + 1)) m.nesting.limit :=
      h.highest_le
    show m'.highest ≤ _
    omega

end Meter

namespace Metered

/-- Read inside a construct, or skip it if the limit admits no further one. -/
def inside (skipped : Nesting -> α) (x : Metered α) : Metered α := fun m =>
  match m.enter? with
  | none => (skipped m.nesting, m)
  | some m' => ((x m').1, (x m').2.leave)

/-- From a count the reader gives the value and brings its meter back. -/
def Reads (n : Nesting) (x : Metered α) (a : α) : Prop :=
  forall m : Meter, m.nesting = n -> (x m).1 = a ∧ m.Restored (x m).2

namespace Reads

variable {n : Nesting} {x : Metered α} {a : α}

theorem pure (n : Nesting) (a : α) : Reads n (Pure.pure a) a := by
  intro m hm
  exact ⟨rfl, Meter.Restored.refl m⟩

theorem map (h : Reads n x a) (f : α -> β) : Reads n (f <$> x) (f a) := by
  intro m hm
  obtain ⟨hvalue, hrestored⟩ := h m hm
  exact ⟨congrArg f hvalue, hrestored⟩

theorem bind {f : α -> Metered β} {b : β} (h : Reads n x a) (h' : Reads n (f a) b) :
    Reads n (x >>= f) b := by
  intro m hm
  obtain ⟨hvalue, hrestored⟩ := h m hm
  obtain ⟨hvalue', hrestored'⟩ := h' (x m).2 (hrestored.nesting.trans hm)
  show (f (x m).1 (x m).2).1 = b ∧ m.Restored (f (x m).1 (x m).2).2
  rw [hvalue]
  exact ⟨hvalue', hrestored.trans hrestored'⟩

theorem ite {c : Prop} [Decidable c] {y : Metered α} {b : α} (h : c -> Reads n x a)
    (h' : ¬c -> Reads n y b) : Reads n (if c then x else y) (if c then a else b) := by
  by_cases hc : c
  · rw [if_pos hc, if_pos hc]
    exact h hc
  · rw [if_neg hc, if_neg hc]
    exact h' hc

theorem inside (h : Reads n.deeper x a) (skipped : Nesting -> α) :
    Reads n (Metered.inside skipped x) (if n.isFull then skipped n else a) := by
  intro m hm
  subst hm
  cases hfull : m.nesting.isFull with
  | true =>
      rw [Metered.inside, Meter.enter?_of_full hfull]
      exact ⟨rfl, Meter.Restored.refl m⟩
  | false =>
      rw [Metered.inside, Meter.enter?_of_not_full hfull]
      obtain ⟨hvalue, hrestored⟩ :=
        h ⟨m.nesting.deeper, max m.highest (m.nesting.depth + 1)⟩ rfl
      exact ⟨hvalue, hrestored.leave hfull⟩

end Reads
end Metered

/-!
## Runs
-/

/-- Read component values up to the first token that passes a test.  One meter serves the
whole run and everything inside it. -/
def meterRun (stop : Predicate) (input : List Token) : Metered (Run input) :=
  match input with
  | [] => pure (.stopped [])
  | t :: ts =>
      if stop t then pure (.stopped (t :: ts))
      else
        match t.opens? with
        | none => (Run.behind (.success t) (List.suffix_cons t ts)) <$> meterRun stop ts
        | some c => do
            let inner : Contents ts <-
              Metered.inside (fun n => .skipped n t.location ts)
                (.ofRun c t.location <$> meterRun c.ends ts)
            Run.behind ⟨c.token inner.values t.location, inner.errors⟩
              (inner.rest_suffix.trans (List.suffix_cons t ts)) <$> meterRun stop inner.rest
termination_by input.length
decreasing_by
  · exact Nat.lt_succ_self _
  · exact Nat.lt_succ_self _
  · exact Nat.lt_succ_of_le inner.rest_suffix.length_le

def meterContents (c : Construct) (l : Location) (input : List Token) :
    Metered (Contents input) :=
  Metered.inside (fun n => .skipped n l input) (.ofRun c l <$> meterRun c.ends input)

theorem meterRun_of_opens_none {stop : Predicate} {t : Token} (ts : List Token)
    (h : stop t = false) (ho : t.opens? = none) :
    meterRun stop (t :: ts) =
      Run.behind (.success t) (List.suffix_cons t ts) <$> meterRun stop ts := by
  rw [meterRun, if_neg (by simp [h])]
  split
  · rfl
  · rename_i c hc
    rw [ho] at hc
    cases hc

theorem meterRun_of_opens {stop : Predicate} {t : Token} {c : Construct}
    (ts : List Token) (h : stop t = false) (ho : t.opens? = some c) :
    meterRun stop (t :: ts) =
      (meterContents c t.location ts >>= fun inner =>
        Run.behind ⟨c.token inner.values t.location, inner.errors⟩
          (inner.rest_suffix.trans (List.suffix_cons t ts)) <$> meterRun stop inner.rest) := by
  rw [meterRun, if_neg (by simp [h])]
  split
  · rename_i hc
    rw [ho] at hc
    cases hc
  · rename_i d hd
    rw [ho] at hd
    cases hd
    rfl

theorem reads_meterRun (n : Nesting) (stop : Predicate) (ts : List Token) :
    Metered.Reads n (meterRun stop ts) (readRun n stop ts) := by
  induction n, stop, ts using readRun_induction with
  | nil n stop =>
      rw [meterRun, readRun_nil]
      exact .pure n _
  | stopped n stop t ts ht =>
      rw [meterRun, if_pos ht, readRun_of_stop ts ht]
      exact .pure n _
  | single n stop t ts ht ho ih =>
      rw [meterRun_of_opens_none ts ht ho, readRun_of_opens_none ts ht ho]
      exact ih.map _
  | nested n stop t ts c ht ho ihinside ih =>
      have hinside : Metered.Reads n (meterContents c t.location ts)
          (readContents n c t.location ts) := (ihinside.map _).inside _
      rw [meterRun_of_opens ts ht ho, readRun_of_opens ts ht ho]
      -- the run goes on behind the construct with the count it had in front of it
      exact hinside.bind (ih.map _)

theorem reads_meterContents (n : Nesting) (c : Construct) (l : Location) (ts : List Token) :
    Metered.Reads n (meterContents c l ts) (readContents n c l ts) :=
  ((reads_meterRun n.deeper c.ends ts).map _).inside _

/-!
## Blocks and preludes

From here on each reader of the grammar has one with a meter, which hands the meter to the
readers it is made of, and a lemma that both read the same.
-/

namespace Block

def ofContents (closing : Kind) (t : Token) {ts : List Token} (inner : Contents ts) :
    Parsed Block :=
  ⟨{ opening := t.kind, closing, values := inner.values, location := t.location },
    inner.errors, inner.rest⟩

def meter (closing : Kind) : List Token -> Metered (Parsed Block)
  | [] =>
      pure
        ⟨{ opening := .unknown, closing, values := [], location := .unknown },
          [.exhausted "simple block"], []⟩
  | t :: ts => ofContents closing t <$> meterContents (.block t.kind closing) t.location ts

theorem reads_meter (n : Nesting) (closing : Kind) (ts : List Token) :
    Metered.Reads n (meter closing ts) (read n closing ts) := by
  cases ts with
  | nil => exact .pure n _
  | cons t ts => exact (reads_meterContents n _ t.location ts).map (ofContents closing t)

end Block

namespace Prelude

def meterEnd (semicolonEnds : Bool) (values : List Token) (errors : List StructureError)
    (input : List Token) : Metered Prelude :=
  match input with
  | [] => pure ⟨values, errors, .exhausted, []⟩
  | t :: ts =>
      if t.isEof then pure ⟨values, errors, .eof, t :: ts⟩
      else if semicolonEnds && t.is Css.semicolon then pure ⟨values, errors, .semicolon, ts⟩
      else if t.is Css.openBrace then
        (fun found => ⟨values, errors ++ found.errors, .block found.value, found.rest⟩) <$>
          Block.meter Css.closeBrace (t :: ts)
      else
        match t.asBlock? with
        | some b => pure ⟨values, errors, .block b, ts⟩
        | none => pure ⟨values, errors, .exhausted, ts⟩

def meter (semicolonEnds : Bool) (input : List Token) : Metered Prelude := do
  let run <- meterRun (ends semicolonEnds) input
  meterEnd semicolonEnds run.values run.errors run.rest

theorem reads_meterEnd (n : Nesting) (semicolonEnds : Bool) (values : List Token)
    (errors : List StructureError) (input : List Token) :
    Metered.Reads n (meterEnd semicolonEnds values errors input)
      (readEnd n semicolonEnds values errors input) := by
  cases input with
  | nil => exact .pure n _
  | cons t ts =>
      refine .ite (fun _ => .pure n _) fun _ => ?_
      refine .ite (fun _ => .pure n _) fun _ => ?_
      refine .ite (fun _ => (Block.reads_meter n Css.closeBrace (t :: ts)).map _) fun _ => ?_
      cases t.asBlock? with
      | none => exact .pure n _
      | some b => exact .pure n _

theorem reads_meter (n : Nesting) (semicolonEnds : Bool) (input : List Token) :
    Metered.Reads n (meter semicolonEnds input) (read n semicolonEnds input) :=
  (reads_meterRun n (ends semicolonEnds) input).bind
    (reads_meterEnd n semicolonEnds _ _ _)

end Prelude

/-!
## Rules
-/

namespace Rule

def ofPrelude (l : Location) (found : Prelude) : Parsed Rule :=
  match found.ending with
  | .block b =>
      ⟨.qualified { prelude := Queue.trim found.values, block := b, location := l },
        found.errors, found.rest⟩
  | ending => ⟨.unknown l, found.errors ++ [unfinished ending "qualified-rule" l], found.rest⟩

def ofNamedPrelude (name : String) (l : Location) (found : Prelude) : Parsed Rule :=
  let rule (block : Option Block) : Rule :=
    .named { name, prelude := Queue.trim found.values, block, location := l }
  match found.ending with
  | .block b => ⟨rule (some b), found.errors, found.rest⟩
  | .semicolon => ⟨rule none, found.errors, found.rest⟩
  | ending =>
      ⟨.unknown l, found.errors ++ [unfinished ending ("at-rule [" ++ name ++ "]") l], found.rest⟩

theorem readQualified_eq_ofPrelude (n : Nesting) (input : List Token) :
    readQualified n input = ofPrelude (Queue.location input) (Prelude.read n false input) := rfl

theorem readNamed_eq_ofNamedPrelude (n : Nesting) (name : String) (l : Location)
    (input : List Token) :
    readNamed n name l input = ofNamedPrelude name l (Prelude.read n true input) := rfl

def meter (t : Token) (ts : List Token) : Metered (Parsed Rule) :=
  if t.is Css.atKeyword then ofNamedPrelude t.text t.location <$> Prelude.meter true ts
  else ofPrelude t.location <$> Prelude.meter false (t :: ts)

theorem reads_meter (n : Nesting) (t : Token) (ts : List Token) :
    Metered.Reads n (meter t ts) (read n t ts) := by
  cases hat : t.is Css.atKeyword with
  | true =>
      rw [meter, if_pos hat, read_of_atKeyword n hat, readNamed_eq_ofNamedPrelude]
      exact (Prelude.reads_meter n true ts).map _
  | false =>
      rw [meter, if_neg (by simp [hat]), read_of_not_atKeyword n hat,
        readQualified_eq_ofPrelude]
      exact (Prelude.reads_meter n false (t :: ts)).map _

theorem meter_rest_suffix {t : Token} (ts : List Token) (h : t.isEof = false) (m : Meter) :
    (meter t ts m).1.rest <:+ ts := by
  rw [(reads_meter m.nesting t ts m rfl).1]
  exact read_rest_suffix m.nesting ts h

def meterAll (input : List Token) : Metered (Parsed (List Rule)) :=
  match input with
  | [] => pure ⟨[], [], []⟩
  | t :: ts =>
      if t.isEof then pure ⟨[], [], t :: ts⟩
      else if isSkipped t then meterAll ts
      else fun m =>
        let first := meter t ts m
        let others := meterAll first.1.rest first.2
        (⟨first.1.value :: others.1.value, first.1.errors ++ others.1.errors, others.1.rest⟩,
          others.2)
termination_by input.length
decreasing_by
  · exact Nat.lt_succ_self _
  · exact Nat.lt_succ_of_le
      (meter_rest_suffix ts (by simpa using ‹¬t.isEof = true›) m).length_le

theorem meterAll_cons {t : Token} (ts : List Token) (heof : t.isEof = false)
    (h : isSkipped t = false) :
    meterAll (t :: ts) = (do
      let first <- meter t ts
      let others <- meterAll first.rest
      pure ⟨first.value :: others.value, first.errors ++ others.errors, others.rest⟩) := by
  rw [meterAll, if_neg (by simp [heof]), if_neg (by simp [h])]
  rfl

/-- A list of rules is read with one meter as it is read with a nesting, and the meter
comes back as it was. -/
theorem reads_meterAll (n : Nesting) (ts : List Token) :
    Metered.Reads n (meterAll ts) (readAll n ts) := by
  induction ts using readAll.induct n with
  | case1 =>
      rw [meterAll, readAll]
      exact .pure n _
  | case2 t ts heof =>
      rw [meterAll, if_pos heof, readAll_of_isEof n ts heof]
      exact .pure n _
  | case3 t ts heof hskip ih =>
      rw [meterAll, if_neg heof, if_pos hskip,
        readAll_of_isSkipped n ts (by simpa using heof) hskip]
      exact ih
  | case4 t ts heof hskip first ih =>
      rw [meterAll_cons ts (by simpa using heof) (by simpa using hskip),
        readAll_cons n ts (by simpa using heof) (by simpa using hskip)]
      exact (reads_meter n t ts).bind (ih.bind (.pure n _))

end Rule

/-!
## Style blocks
-/

namespace Declaration

def ofRun (name : String) (l : Location) {input : List Token} (run : Run input) :
    Parsed Declaration :=
  let stripped := stripImportant (Queue.trimEnd run.values)
  { value := { name, values := stripped.1, important := stripped.2, location := l }
    errors :=
      run.components.flatMap componentErrors ++
        (if stripped.1.isEmpty then [.emptyDeclaration name l] else [])
    rest := run.rest }

def meter (input : List Token) : Metered (Parsed Declaration) :=
  match input with
  | [] => pure ⟨unread "" .unknown, [.exhausted "declaration"], []⟩
  | t :: ts =>
      let l := t.location
      if t.is Css.ident then
        match Queue.pollIf (Predicate.ofKind Css.colon) (Queue.skipBlank ts) with
        | (none, rest) => pure ⟨unread t.text l, [.missingColon t.text l], rest⟩
        | (some _, rest) => ofRun t.text l <$> meterRun Token.isEof (Queue.skipBlank rest)
      else pure ⟨unread "" l, [.unexpectedToken "identifier" t.shown l], ts⟩

theorem reads_meter (n : Nesting) (input : List Token) :
    Metered.Reads n (meter input) (read n input) := by
  cases input with
  | nil => exact .pure n _
  | cons t ts =>
      refine .ite (fun _ => ?_) fun _ => .pure n _
      rcases Queue.pollIf (Predicate.ofKind Css.colon) (Queue.skipBlank ts) with ⟨colon?, rest⟩
      cases colon? with
      | none => exact .pure n _
      | some colon =>
          exact (reads_meterRun n Token.isEof (Queue.skipBlank rest)).map (ofRun t.text t.location)

end Declaration

namespace StyleBlock

def ofDeclaration {input : List Token} (run : Run input) (found : Parsed Declaration) :
    Parsed Item :=
  { value := if found.errors.isEmpty then .declaration found.value else .nothing
    errors := run.errors ++ found.errors
    rest := afterItem run.rest }

def ofIllegal (t : Token) {input : List Token} (run : Run input) : Parsed Item :=
  { value := .nothing
    errors :=
      [.illegalToken t.shown t.location] ++ run.errors ++ Token.runLexicalErrors run.values
    rest := afterItem run.rest }

def ofRule (found : Parsed Rule) : Parsed Item :=
  ⟨.rule found.value, found.errors, found.rest⟩

def meterItem (t : Token) (ts : List Token) : Metered (Parsed Item) :=
  if t.is Css.atKeyword then ofRule <$> Rule.meter t ts
  else if t.is Css.ident then do
    let run <- meterRun endsItem (t :: ts)
    ofDeclaration run <$> Declaration.meter run.values
  else if Css.isDelim t '&' then ofRule <$> Rule.meter t ts
  else ofIllegal t <$> meterRun endsItem (t :: ts)

theorem reads_meterItem (n : Nesting) (t : Token) (ts : List Token) :
    Metered.Reads n (meterItem t ts) (readItem n t ts) := by
  refine .ite (fun _ => (Rule.reads_meter n t ts).map ofRule) fun _ => ?_
  refine .ite (fun _ => ?_) fun _ => ?_
  · exact (reads_meterRun n endsItem (t :: ts)).bind ((Declaration.reads_meter n _).map _)
  · exact .ite (fun _ => (Rule.reads_meter n t ts).map ofRule)
      fun _ => (reads_meterRun n endsItem (t :: ts)).map (ofIllegal t)

theorem meterItem_rest_suffix {t : Token} (ts : List Token) (h : isSkipped t = false)
    (he : t.isEof = false) (m : Meter) : (meterItem t ts m).1.rest <:+ ts := by
  rw [(reads_meterItem m.nesting t ts m rfl).1]
  exact readItem_rest_suffix m.nesting ts h he

def meter (input : List Token) : Metered (Parsed StyleBlock) :=
  match input with
  | [] => pure ⟨empty, [], []⟩
  | t :: ts =>
      if t.isEof then pure ⟨empty, [], t :: ts⟩
      else if isSkipped t then meter ts
      else fun m =>
        let first := meterItem t ts m
        let others := meter first.1.rest first.2
        (⟨first.1.value.addTo others.1.value, first.1.errors ++ others.1.errors, others.1.rest⟩,
          others.2)
termination_by input.length
decreasing_by
  · exact Nat.lt_succ_self _
  · exact Nat.lt_succ_of_le
      (meterItem_rest_suffix ts (by simpa using ‹¬isSkipped t = true›)
        (by simpa using ‹¬t.isEof = true›) m).length_le

theorem meter_cons {t : Token} (ts : List Token) (heof : t.isEof = false)
    (h : isSkipped t = false) :
    meter (t :: ts) = (do
      let first <- meterItem t ts
      let others <- meter first.rest
      pure ⟨first.value.addTo others.value, first.errors ++ others.errors, others.rest⟩) := by
  rw [meter, if_neg (by simp [heof]), if_neg (by simp [h])]
  rfl

/-- A style block is read with one meter as it is read with a nesting, and the meter
comes back as it was. -/
theorem reads_meter (n : Nesting) (ts : List Token) :
    Metered.Reads n (meter ts) (read n ts) := by
  induction ts using read.induct n with
  | case1 =>
      rw [meter, read]
      exact .pure n _
  | case2 t ts heof =>
      rw [meter, if_pos heof, read, if_pos heof]
      exact .pure n _
  | case3 t ts heof hskip ih =>
      rw [meter, if_neg heof, if_pos hskip, read_of_isSkipped n ts (by simpa using heof) hskip]
      exact ih
  | case4 t ts heof hskip first ih =>
      rw [meter_cons ts (by simpa using heof) (by simpa using hskip),
        read_cons n ts (by simpa using heof) (by simpa using hskip)]
      exact (reads_meterItem n t ts).bind (ih.bind (.pure n _))

end StyleBlock

end StyleTokens
