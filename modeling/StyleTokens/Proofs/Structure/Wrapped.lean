import StyleTokens.Proofs.Structure.Balanced
import StyleTokens.Proofs.Structure.Resolved

/-!
# Values in place of tokens

A style block is read from tokens or, inside a rule, from values that were read from
them before.  Where the tokens are read without an error, both give the same block: what
stops a run of tokens also stops the values, at the value that starts there.
-/

namespace StyleTokens

/-- The values of the tokens up to the end of the text. -/
def wrapped (n : Nesting) (ts : List Token) : List Token := (parseRun n Token.isEof ts).value

/-- What was read, with the values of what follows in place of its tokens. -/
def Parsed.wrapRest {α : Type} (n : Nesting) (p : Parsed α) : Parsed α :=
  ⟨p.value, p.errors, wrapped n p.rest⟩

@[inherit_doc Parsed.wrapRest]
def Prelude.wrapRest (n : Nesting) (p : Prelude) : Prelude :=
  ⟨p.values, p.errors, p.ending, wrapped n p.rest⟩

/-- Tokens as they were cut, all of whose constructs are read without an error. -/
structure Raw (n : Nesting) (ts : List Token) : Prop where
  emitted : forall t, t ∈ ts -> Css.Emitted t
  free : EofFree ts
  sound : Sound n ts

section

variable {n : Nesting} {t : Token} {ts : List Token}

@[simp] theorem wrapped_nil : wrapped n [] = [] := by
  rw [wrapped, parseRun_of_standsAt (standsAt_nil _)]

theorem wrapped_cons (ht : t.isEof = false) :
    wrapped n (t :: ts) =
      (readComponent n t ts).value :: wrapped n (readComponent n t ts).rest := by
  rw [wrapped, parseRun_cons ts ht]
  rfl

theorem wrapped_single (ht : t.isEof = false) (ho : t.opens? = none) :
    wrapped n (t :: ts) = t :: wrapped n ts := by
  rw [wrapped_cons ht, readComponent_of_opens_none n ts ho]

namespace Raw

theorem head_not_isEof (h : Raw n (t :: ts)) : t.isEof = false := h.free t List.mem_cons_self

theorem head_emitted (h : Raw n (t :: ts)) : Css.Emitted t := h.emitted t List.mem_cons_self

theorem suffix {us : List Token} (h : Raw n us) (hsuffix : ts <:+ us) (hsound : Sound n ts) :
    Raw n ts where
  emitted := fun u hu => h.emitted u (hsuffix.mem hu)
  free := fun u hu => h.free u (hsuffix.mem hu)
  sound := hsound

theorem component (h : Raw n (t :: ts)) :
    (readComponent n t ts).errors = [] ∧ Raw n (readComponent n t ts).rest := by
  obtain ⟨herrors, hsound⟩ := sound_cons h.head_not_isEof h.sound
  have hsuffix := (readComponent_rest_suffix n t ts).trans (List.suffix_cons t ts)
  exact ⟨herrors, h.suffix hsuffix hsound⟩

theorem tail (h : Raw n (t :: ts)) (ho : t.opens? = none) : Raw n ts :=
  h.suffix (List.suffix_cons t ts) (sound_tail h.head_not_isEof ho h.sound)

theorem run (h : Raw n ts) {stop : Predicate} (heof : StopsAtEof stop) :
    (parseRun n stop ts).errors = [] ∧ Raw n (parseRun n stop ts).rest := by
  obtain ⟨herrors, hsound⟩ := sound_parseRun n stop heof ts h.sound
  exact ⟨herrors, h.suffix (readRun n stop ts).rest_suffix hsound⟩

theorem opensNothing_wrapped (h : Raw n ts) : OpensNothing (wrapped n ts) := by
  have hbalanced : AllBalanced (wrapped n ts) :=
    allBalanced_parseRun n Token.isEof (fun u hu => hu) ts fun u hu => (h.emitted u hu).isPlain
  exact hbalanced.opens?_eq_none

end Raw

end

/-!
## Runs
-/

/-- The test treats a construct as the token that opens it. -/
def Transparent (stop : Predicate) : Prop :=
  forall (t : Token) (c : Construct) (values : List Token), t.IsPlain -> t.opens? = some c ->
    stop (c.token values t.location) = stop t

theorem Transparent.readComponent {stop : Predicate} (h : Transparent stop) (n : Nesting)
    {t : Token} (ht : t.IsPlain) (ts : List Token) :
    stop (readComponent n t ts).value = stop t := by
  cases ho : t.opens? with
  | none => rw [readComponent_of_opens_none n ts ho]
  | some c =>
      rw [readComponent_eq_parseContents n ts ho]
      exact h t c _ ht ho

def Css.nestingKinds : List Kind := Css.openers ++ Css.constructKinds

theorem not_is_nesting {t : Token} {c : Construct} (ho : t.opens? = some c)
    (values : List Token) {k : Kind}
    (hk : Css.nestingKinds.all (fun nesting => !k.same nesting) = true) :
    t.is k = false ∧ (c.token values t.location).is k = false := by
  rw [Css.nestingKinds, List.all_append] at hk
  obtain ⟨hopeners, hconstructs⟩ := Bool.and_eq_true_iff.mp hk
  constructor
  · rw [Bool.eq_false_iff]
    intro his
    rw [opens?_eq_none_of_is his hopeners] at ho
    cases ho
  · exact not_is_construct c values t.location hconstructs

theorem transparent_is {k : Kind}
    (hk : Css.nestingKinds.all (fun nesting => !k.same nesting) = true) :
    Transparent fun t => t.is k := by
  intro t c values _ ho
  obtain ⟨htoken, hconstruct⟩ := not_is_nesting ho values hk
  exact hconstruct.trans htoken.symm

theorem transparent_isEof : Transparent Token.isEof := transparent_is (by decide)

section

variable {n : Nesting} {stop : Predicate} {ts : List Token}

theorem before_wrapped (hstop : Transparent stop) (h : Raw n ts) :
    Queue.before stop (wrapped n ts) = (parseRun n stop ts).value ∧
      Queue.onward stop (wrapped n ts) = wrapped n (parseRun n stop ts).rest := by
  induction ts using parseRun_induction n stop with
  | nil =>
      rw [parseRun_of_standsAt (standsAt_nil stop), wrapped_nil]
      exact ⟨rfl, rfl⟩
  | stopped t ts ht =>
      have hvalue := hstop.readComponent n h.head_emitted.isPlain ts
      rw [parseRun_of_standsAt (standsAt_cons ts ht), wrapped_cons h.head_not_isEof]
      simp [Queue.before, Queue.onward, hvalue, ht]
  | value t ts ht ih =>
      have hvalue := hstop.readComponent n h.head_emitted.isPlain ts
      obtain ⟨hbefore, honward⟩ := ih h.component.2
      rw [parseRun_cons ts ht, wrapped_cons h.head_not_isEof]
      constructor
      · show _ = (readComponent n t ts).value :: (parseRun n stop (readComponent n t ts).rest).value
        rw [<- hbefore]
        simp [Queue.before, hvalue, ht]
      · show _ = wrapped n (parseRun n stop (readComponent n t ts).rest).rest
        rw [<- honward]
        simp [Queue.onward, hvalue, ht]

/-- A run of values ends where the run of their tokens does. -/
theorem parseRun_wrapped (hstop : Transparent stop) (heof : StopsAtEof stop) (h : Raw n ts) :
    parseRun n stop (wrapped n ts) = (parseRun n stop ts).wrapRest n := by
  obtain ⟨hbefore, honward⟩ := before_wrapped hstop h
  rw [parseRun_of_opensNothing n stop h.opensNothing_wrapped, hbefore, honward, Parsed.wrapRest,
    (h.run heof).1]

end

/-!
## Rules
-/

theorem opening_of_opens? {t : Token} {opening closing : Kind}
    (ho : t.opens? = some (.block opening closing)) : opening = t.kind := by
  unfold Token.opens? at ho
  split at ho
  · cases ho
    rfl
  · split at ho <;> cases ho

theorem isBraceBlock_construct {t : Token} {c : Construct} (ho : t.opens? = some c)
    (values : List Token) (l : Location) :
    (c.token values l).isBraceBlock = t.is Css.openBrace := by
  cases c with
  | block opening closing =>
      rw [opening_of_opens? ho]
      rfl
  | call name =>
      cases hbrace : t.is Css.openBrace with
      | false => rfl
      | true =>
          rw [opens?_of_openBrace hbrace] at ho
          cases ho

theorem Token.IsPlain.isBraceBlock {t : Token} (h : t.IsPlain) : t.isBraceBlock = false := by
  rw [Token.isBraceBlock, h.1]
  rfl

namespace Prelude

theorem transparent_ends (semicolonEnds : Bool) : Transparent (ends semicolonEnds) := by
  intro t c values hplain ho
  have heof := transparent_isEof t c values hplain ho
  have hsemicolon : (c.token values t.location).is Css.semicolon = t.is Css.semicolon :=
    transparent_is (by decide) t c values hplain ho
  have hbrace : (c.token values t.location).is Css.openBrace = false :=
    not_is_construct c values t.location (by decide)
  rw [ends, ends, heof, hsemicolon, hbrace, hplain.isBraceBlock, isBraceBlock_construct ho,
    Bool.or_false, Bool.or_false]

section

variable (n : Nesting) (semicolonEnds : Bool) (values : List Token)
variable (errors : List StructureError) (ts : List Token)

theorem readEnd_of_openBrace {t : Token} (h : t.is Css.openBrace = true) :
    readEnd n semicolonEnds values errors (t :: ts) =
      ⟨values,
        errors ++ (parseContents n (.block t.kind Css.closeBrace) t.location ts).errors,
        .block
          { opening := t.kind, closing := Css.closeBrace,
            values := (parseContents n (.block t.kind Css.closeBrace) t.location ts).value,
            location := t.location },
        (parseContents n (.block t.kind Css.closeBrace) t.location ts).rest⟩ := by
  have ho := opens?_of_openBrace h
  have heof : t.isEof = false := (not_is_nesting ho [] (by decide)).1
  have hsemicolon : t.is Css.semicolon = false := (not_is_nesting ho [] (by decide)).1
  simp only [readEnd, heof, hsemicolon, h, Bool.and_false, block_read_eq_parseContents]
  rfl

theorem readEnd_of_block (b : Block) :
    readEnd n semicolonEnds values errors (b.toToken :: ts) = ⟨values, errors, .block b, ts⟩ := by
  have his : forall k, k ∈ [Kind.eof, Css.semicolon, Css.openBrace] -> b.toToken.is k = false :=
    fun k hk => by
      have hkinds : forall k, k ∈ [Kind.eof, Css.semicolon, Css.openBrace] ->
          Css.simpleBlock.same k = false := by
        decide
      exact hkinds k hk
  have heof : b.toToken.isEof = false := his Kind.eof (by simp)
  simp only [readEnd, heof, his Css.semicolon (by simp), his Css.openBrace (by simp),
    Bool.and_false]
  rfl

end

variable {n : Nesting} {semicolonEnds : Bool} {ts : List Token}

theorem readEnd_wrapped (values : List Token) (hends : StandsAt (ends semicolonEnds) ts)
    (h : Raw n ts) :
    readEnd n semicolonEnds values [] (wrapped n ts) =
        (readEnd n semicolonEnds values [] ts).wrapRest n ∧
      Raw n (readEnd n semicolonEnds values [] ts).rest := by
  cases ts with
  | nil =>
      rw [wrapped_nil, readEnd, wrapRest, wrapped_nil]
      exact ⟨rfl, h⟩
  | cons t ts =>
      have heof := h.head_not_isEof
      have hend := hends t rfl
      by_cases hsemicolon : (semicolonEnds && t.is Css.semicolon) = true
      · have his : t.is Css.semicolon = true := (Bool.and_eq_true_iff.mp hsemicolon).2
        have ho := opens?_eq_none_of_is his (by decide)
        rw [wrapped_single heof ho]
        simp only [readEnd, heof, hsemicolon]
        exact ⟨rfl, h.tail ho⟩
      · -- the block is read behind its brace, or taken as it was read there before
        have hbrace : t.is Css.openBrace = true := by
          simpa [ends, heof, hsemicolon, h.head_emitted.isPlain.isBraceBlock] using hend
        have ho := opens?_of_openBrace hbrace
        obtain ⟨herrors, hrest⟩ := h.component
        rw [readComponent_eq_parseContents n ts ho] at herrors hrest
        rw [wrapped_cons heof, readComponent_eq_parseContents n ts ho,
          readEnd_of_openBrace n semicolonEnds values [] ts hbrace, List.nil_append]
        constructor
        · rw [wrapRest, show _ = [] from herrors]
          exact readEnd_of_block n semicolonEnds values [] _ _
        · exact hrest

theorem read_wrapped (semicolonEnds : Bool) (h : Raw n ts) :
    read n semicolonEnds (wrapped n ts) = (read n semicolonEnds ts).wrapRest n ∧
      Raw n (read n semicolonEnds ts).rest := by
  obtain ⟨herrors, hrest⟩ := h.run (stopsAtEof_ends semicolonEnds)
  have hstands := standsAt_parseRun_rest n (ends semicolonEnds) ts
  rw [read_eq_readEnd, read_eq_readEnd,
    parseRun_wrapped (transparent_ends semicolonEnds) (stopsAtEof_ends semicolonEnds) h,
    Parsed.wrapRest, herrors]
  exact readEnd_wrapped _ hstands hrest

end Prelude

namespace Rule

variable {n : Nesting} {ts : List Token}

theorem readNamed_wrapped (name : String) (l : Location) (h : Raw n ts) :
    readNamed n name l (wrapped n ts) = (readNamed n name l ts).wrapRest n ∧
      Raw n (readNamed n name l ts).rest := by
  obtain ⟨hread, hrest⟩ := Prelude.read_wrapped true h
  rw [readNamed_rest]
  constructor
  · simp only [readNamed, hread, Prelude.wrapRest]
    split <;> rfl
  · exact hrest

theorem readQualified_wrapped {t : Token} (ho : t.opens? = none) (h : Raw n (t :: ts)) :
    readQualified n (t :: wrapped n ts) = (readQualified n (t :: ts)).wrapRest n ∧
      Raw n (readQualified n (t :: ts)).rest := by
  obtain ⟨hread, hrest⟩ := Prelude.read_wrapped false h
  rw [wrapped_single h.head_not_isEof ho] at hread
  rw [readQualified_rest]
  constructor
  · simp only [readQualified, hread, Prelude.wrapRest]
    split <;> rfl
  · exact hrest

theorem read_wrapped {t : Token} (ho : t.opens? = none) (h : Raw n (t :: ts)) :
    read n t (wrapped n ts) = (read n t ts).wrapRest n ∧ Raw n (read n t ts).rest := by
  cases hat : t.is Css.atKeyword with
  | true =>
      rw [read_of_atKeyword n hat, read_of_atKeyword n hat]
      exact readNamed_wrapped t.text t.location (h.tail ho)
  | false =>
      rw [read_of_not_atKeyword n hat, read_of_not_atKeyword n hat]
      exact readQualified_wrapped ho h

end Rule

/-!
## Style blocks
-/

/-- The error without the token it shows, if the token has no place in a style block. -/
def StructureError.withoutToken (e : StructureError) : StructureError :=
  match e with
  | .illegalToken _ l => .illegalToken "" l
  | e => e

namespace StyleBlock

theorem transparent_endsItem : Transparent endsItem := by
  intro t c values hplain ho
  have hsemicolon : (c.token values t.location).is Css.semicolon = t.is Css.semicolon :=
    transparent_is (by decide) t c values hplain ho
  rw [endsItem, endsItem, hsemicolon, transparent_isEof t c values hplain ho]

/-- What an item read from values has to do with the item read from their tokens. -/
structure Mirrors (n : Nesting) (p q : Parsed Item) : Prop where
  value : q.value = p.value
  errors : q.errors.map StructureError.withoutToken = p.errors.map StructureError.withoutToken
  rest : q.rest = wrapped n p.rest

theorem mirrors_wrapRest (n : Nesting) (p : Parsed Item) : Mirrors n p (p.wrapRest n) :=
  ⟨rfl, rfl, rfl⟩

section

variable {n : Nesting} {t : Token} {ts : List Token}

theorem afterItem_wrapped (hends : StandsAt endsItem ts) (h : Raw n ts) :
    afterItem (wrapped n ts) = wrapped n (afterItem ts) ∧ Raw n (afterItem ts) := by
  cases ts with
  | nil =>
      rw [wrapped_nil]
      exact ⟨wrapped_nil.symm, h⟩
  | cons t ts =>
      have heof := h.head_not_isEof
      have hsemicolon : t.is Css.semicolon = true := by
        simpa [endsItem, heof] using hends t rfl
      have ho := opens?_eq_none_of_is hsemicolon (by decide)
      rw [wrapped_single heof ho, afterItem_of_semicolon hsemicolon,
        afterItem_of_semicolon hsemicolon]
      exact ⟨rfl, h.tail ho⟩

theorem ofRun_wrapped (value : List Token -> Item)
    (errors : List Token -> List StructureError -> List StructureError) (h : Raw n ts) :
    ofRun value errors (parseRun n endsItem (wrapped n ts)) =
        (ofRun value errors (parseRun n endsItem ts)).wrapRest n ∧
      Raw n (ofRun value errors (parseRun n endsItem ts)).rest := by
  have hrun := (h.run stopsAtEof_endsItem).2
  obtain ⟨hafter, hrest⟩ := afterItem_wrapped (standsAt_parseRun_rest n endsItem ts) hrun
  rw [parseRun_wrapped transparent_endsItem stopsAtEof_endsItem h]
  constructor
  · simp only [ofRun, Parsed.wrapRest, hafter]
  · exact hrest

theorem readRule_wrapped (ho : t.opens? = none) (h : Raw n (t :: ts)) :
    readRule n t (wrapped n ts) = (readRule n t ts).wrapRest n ∧ Raw n (readRule n t ts).rest := by
  obtain ⟨hread, hrest⟩ := Rule.read_wrapped ho h
  simp only [readRule, hread]
  exact ⟨rfl, hrest⟩

theorem mirrors_skipIllegal (h : Raw n (t :: ts)) :
    Mirrors n (skipIllegal n t ts)
        (skipIllegal n (readComponent n t ts).value (wrapped n (readComponent n t ts).rest)) ∧
      Raw n (skipIllegal n t ts).rest := by
  have hlocation : (readComponent n t ts).value.location = t.location := by
    cases ho : t.opens? with
    | none => rw [readComponent_of_opens_none n ts ho]
    | some c =>
        rw [readComponent_eq_parseContents n ts ho]
        exact location_construct c _ t.location
  obtain ⟨hread, hrest⟩ := ofRun_wrapped (fun _ => .nothing)
    (fun values errors =>
      [.illegalToken t.shown t.location] ++ errors ++ Token.runLexicalErrors values) h
  rw [wrapped_cons h.head_not_isEof] at hread
  rw [skipIllegal_eq_ofRun, skipIllegal_eq_ofRun]
  refine ⟨⟨rfl, ?_, congrArg Parsed.rest hread⟩, hrest⟩
  -- the reports differ in the token they show, and in nothing behind it
  have herrors := congrArg (fun p => (Parsed.errors p).map StructureError.withoutToken) hread
  rw [hlocation]
  exact herrors

theorem readItem_eq_skipIllegal (n : Nesting) (ts : List Token)
    (h : forall k, k ∈ [Css.atKeyword, Css.ident, Css.delim] -> t.is k = false) :
    readItem n t ts = skipIllegal n t ts := by
  have hat := h Css.atKeyword (by simp)
  have hident := h Css.ident (by simp)
  have hdelim := h Css.delim (by simp)
  simp [readItem, Css.isDelim, Token.isChar, hat, hident, hdelim]

theorem readItem_of_opens? (n : Nesting) (ts : List Token) {c : Construct}
    (ho : t.opens? = some c) :
    readItem n t ts = skipIllegal n t ts ∧
      readItem n (readComponent n t ts).value (wrapped n (readComponent n t ts).rest) =
        skipIllegal n (readComponent n t ts).value (wrapped n (readComponent n t ts).rest) := by
  have hkinds : forall k, k ∈ [Css.atKeyword, Css.ident, Css.delim] ->
      Css.nestingKinds.all (fun nesting => !k.same nesting) = true := by
    decide
  constructor
  · apply readItem_eq_skipIllegal
    intro k hk
    exact (not_is_nesting ho [] (hkinds k hk)).1
  · apply readItem_eq_skipIllegal
    intro k hk
    rw [readComponent_eq_parseContents n ts ho]
    exact (not_is_nesting ho _ (hkinds k hk)).2

theorem mirrors_readItem (h : Raw n (t :: ts)) :
    Mirrors n (readItem n t ts)
        (readItem n (readComponent n t ts).value (wrapped n (readComponent n t ts).rest)) ∧
      Raw n (readItem n t ts).rest := by
  have hillegal := mirrors_skipIllegal h
  cases ho : t.opens? with
  | some c =>
      -- neither a bracket nor a block starts an item
      obtain ⟨hread, hread'⟩ := readItem_of_opens? n ts ho
      rw [hread, hread']
      exact hillegal
  | none =>
      have hrule := readRule_wrapped ho h
      have hdeclaration : readDeclaration n (t :: wrapped n ts) =
          (readDeclaration n (t :: ts)).wrapRest n ∧ Raw n (readDeclaration n (t :: ts)).rest := by
        rw [readDeclaration_eq_ofRun, readDeclaration_eq_ofRun,
          <- wrapped_single h.head_not_isEof ho]
        exact ofRun_wrapped _ _ h
      rw [readComponent_of_opens_none n ts ho] at hillegal ⊢
      unfold readItem
      split
      · rw [hrule.1]
        exact ⟨mirrors_wrapRest n _, hrule.2⟩
      · split
        · rw [hdeclaration.1]
          exact ⟨mirrors_wrapRest n _, hdeclaration.2⟩
        · split
          · rw [hrule.1]
            exact ⟨mirrors_wrapRest n _, hrule.2⟩
          · exact hillegal

theorem isSkipped_readComponent (h : Css.Emitted t) :
    isSkipped (readComponent n t ts).value = isSkipped t := by
  cases ho : t.opens? with
  | none => rw [readComponent_of_opens_none n ts ho]
  | some c =>
      have hskip : isSkipped t = false := by
        rw [Bool.eq_false_iff]
        intro hskip
        rw [opens?_eq_none_of_isSkipped h hskip] at ho
        cases ho
      rw [readComponent_eq_parseContents n ts ho, hskip]
      cases c <;> rfl

end

theorem read_wrapped (n : Nesting) {ts : List Token} (h : Raw n ts) :
    (read n (wrapped n ts)).value = (read n ts).value ∧
      (read n (wrapped n ts)).errors.map StructureError.withoutToken =
        (read n ts).errors.map StructureError.withoutToken := by
  induction ts using StyleBlock.read.induct n with
  | case1 =>
      rw [wrapped_nil]
      exact ⟨rfl, rfl⟩
  | case2 t ts heof =>
      rw [h.head_not_isEof] at heof
      cases heof
  | case3 t ts _ hskip ih =>
      have heof := h.head_not_isEof
      have ho := opens?_eq_none_of_isSkipped h.head_emitted hskip
      rw [wrapped_single heof ho, read_of_isSkipped n _ heof hskip,
        read_of_isSkipped n _ heof hskip]
      exact ih (h.tail ho)
  | case4 t ts _ hskip first ih =>
      have heof := h.head_not_isEof
      have hread : isSkipped t = false := by simpa using hskip
      have hread' : isSkipped (readComponent n t ts).value = false := by
        rw [isSkipped_readComponent h.head_emitted, hread]
      have heof' : (readComponent n t ts).value.isEof = false := by
        rw [transparent_isEof.readComponent n h.head_emitted.isPlain ts, heof]
      obtain ⟨hitem, hrest⟩ := mirrors_readItem h
      obtain ⟨hvalue, herrors⟩ := ih hrest
      rw [wrapped_cons heof, read_cons n _ heof' hread', read_cons n ts heof hread, hitem.rest,
        hitem.value]
      constructor
      · exact congrArg (readItem n t ts).value.addTo hvalue
      · simp only [List.map_append, hitem.errors]
        exact congrArg (_ ++ ·) herrors

/-- A style block is read from the values of its tokens as from the tokens, if all their
brackets match: the declarations and the rules are the same, and the errors too, except
for the token that an illegal one is shown as. -/
theorem read_values (o : Options) {ts : List Token}
    (hemitted : forall t, t ∈ ts -> Css.Emitted t) (hfree : EofFree ts)
    (hclosed : (readRun (.ofOptions o) Token.isEof ts).errors = []) :
    (read (.ofOptions o) (readRun (.ofOptions o) Token.isEof ts).values).value =
        (read (.ofOptions o) ts).value ∧
      (read (.ofOptions o) (readRun (.ofOptions o) Token.isEof ts).values).errors.map
          StructureError.withoutToken =
        (read (.ofOptions o) ts).errors.map StructureError.withoutToken :=
  read_wrapped (.ofOptions o) ⟨hemitted, hfree, hclosed⟩

def misplaced : List Token :=
  [⟨Css.openBrace, .none, ⟨1, 1, 0⟩, none⟩, ⟨Css.closeBrace, .none, ⟨1, 2, 1⟩, none⟩,
    ⟨Css.semicolon, .none, ⟨1, 3, 2⟩, none⟩, ⟨Css.delim, .char '&', ⟨1, 4, 3⟩, none⟩,
    ⟨Css.openBrace, .none, ⟨1, 5, 4⟩, none⟩, ⟨Css.closeBrace, .none, ⟨1, 6, 5⟩, none⟩]

/-- What is read from the tokens is read from two blocks and what stands between them. -/
theorem read_values_misplaced :
    (readRun (.ofOptions {}) Token.isEof misplaced).errors = [] ∧
      (readRun (.ofOptions {}) Token.isEof misplaced).values.map Token.kind =
        [Css.simpleBlock, Css.semicolon, Css.delim, Css.simpleBlock] ∧
      (read (.ofOptions {}) (readRun (.ofOptions {}) Token.isEof misplaced).values).value =
        (read (.ofOptions {}) misplaced).value := by
  have hcut : Css.tokenize {} "{};&{}" = misplaced ++ [Token.eof.placed ⟨1, 7, 6⟩] := by
    with_unfolding_all rfl
  have hemitted : forall t, t ∈ misplaced -> Css.Emitted t := by
    intro t ht
    refine ⟨{}, "{};&{}", ?_⟩
    rw [hcut]
    exact List.mem_append_left _ ht
  have hfree : EofFree misplaced := by
    intro t ht
    have hall : (misplaced.all fun t => !t.isEof) = true := by decide
    simpa using List.all_eq_true.mp hall t ht
  have hread : parseRun (.ofOptions {}) Token.isEof misplaced =
      ⟨[(Construct.block Css.openBrace Css.closeBrace).token [] ⟨1, 1, 0⟩,
          ⟨Css.semicolon, .none, ⟨1, 3, 2⟩, none⟩, ⟨Css.delim, .char '&', ⟨1, 4, 3⟩, none⟩,
          (Construct.block Css.openBrace Css.closeBrace).token [] ⟨1, 5, 4⟩], [], []⟩ := by
    rw [misplaced, parseRun_cons _ rfl, readComponent_eq_parseContents _ _ rfl,
      parseContents_of_not_full rfl, parseRun_of_standsAt (standsAt_cons _ rfl), closedBy_cons rfl,
      parseRun_cons _ rfl, readComponent_of_opens_none _ _ rfl, parseRun_cons _ rfl,
      readComponent_of_opens_none _ _ rfl, parseRun_cons _ rfl,
      readComponent_eq_parseContents _ _ rfl, parseContents_of_not_full rfl,
      parseRun_of_standsAt (standsAt_cons _ rfl), closedBy_cons rfl,
      parseRun_of_standsAt (standsAt_nil _)]
    rfl
  have hclosed := congrArg Parsed.errors hread
  constructor
  · exact hclosed
  · constructor
    · exact congrArg (fun p => (Parsed.value p).map Token.kind) hread
    · exact (read_values {} hemitted hfree hclosed).1

end StyleBlock

end StyleTokens
