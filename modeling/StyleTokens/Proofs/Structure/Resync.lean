import StyleTokens.Proofs.Css.Lexeme
import StyleTokens.Proofs.Structure.Sound

/-!
# Style blocks find their way back

Behind a semicolon a style block reads on as if it had started there, whatever
malformed items stand before it, as long as all brackets before it are closed and
no rule is left without its end.
-/

namespace StyleTokens
namespace StyleBlock

/-!
## Items up to a semicolon
-/

theorem stopsAtEof_endsItem : StopsAtEof endsItem := by
  intro t ht
  simp [endsItem, ht]

theorem afterItem_cons_append (t : Token) (ts more : List Token) :
    afterItem (t :: ts ++ more) = afterItem (t :: ts) ++ more := by
  simp only [afterItem, Queue.dropIf, Queue.pollIf, List.cons_append]
  split <;> rfl

theorem afterItem_of_semicolon {t : Token} (h : t.is Css.semicolon = true) (ts : List Token) :
    afterItem (t :: ts) = ts :=
  Queue.dropIf_cons_of_pos ts h

theorem afterItem_of_not_semicolon {t : Token} (h : t.is Css.semicolon = false)
    (ts : List Token) : afterItem (t :: ts) = t :: ts :=
  Queue.dropIf_cons_of_neg ts h

theorem sound_afterItem {n : Nesting} {ts : List Token} (h : Sound n ts) :
    Sound n (afterItem ts) := by
  cases ts with
  | nil => exact h
  | cons t ts =>
      cases hsemicolon : t.is Css.semicolon with
      | true =>
          rw [afterItem_of_semicolon hsemicolon]
          exact sound_tail (not_isEof_of_is hsemicolon (by decide))
            (opens?_eq_none_of_is hsemicolon (by decide)) h
      | false =>
          rw [afterItem_of_not_semicolon hsemicolon]
          exact h

def ofRun (value : List Token -> Item)
    (errors : List Token -> List StructureError -> List StructureError)
    (run : Parsed (List Token)) : Parsed Item :=
  ⟨value run.value, errors run.value run.errors, afterItem run.rest⟩

theorem readDeclaration_eq_ofRun (n : Nesting) (input : List Token) :
    readDeclaration n input =
      ofRun
        (fun values =>
          if (Declaration.read n values).errors.isEmpty then
            .declaration (Declaration.read n values).value
          else .nothing)
        (fun values errors => errors ++ (Declaration.read n values).errors)
        (parseRun n endsItem input) := rfl

theorem skipIllegal_eq_ofRun (n : Nesting) (t : Token) (ts : List Token) :
    skipIllegal n t ts =
      ofRun (fun _ => .nothing)
        (fun values errors =>
          [.illegalToken t.shown t.location] ++ errors ++ Token.runLexicalErrors values)
        (parseRun n endsItem (t :: ts)) := rfl

theorem sound_ofRun_rest {n : Nesting} {input : List Token} (h : Sound n input)
    (value : List Token -> Item)
    (errors : List Token -> List StructureError -> List StructureError) :
    Sound n (ofRun value errors (parseRun n endsItem input)).rest :=
  sound_afterItem (sound_parseRun n endsItem stopsAtEof_endsItem input h).2

/-- The same item in front of more tokens.  They are left behind what was left
without them, or are all that is left: then the item took the semicolon. -/
def Continues (p q : Parsed Item) (semicolon : Token) (more : List Token) : Prop :=
  q = { p with rest := p.rest ++ semicolon :: more } ∨
    (p.rest = [] ∧ q = { p with rest := more })

theorem continues_readRule {n : Nesting} {t : Token} {ts : List Token}
    (herrors : (Rule.read n t ts).errors = []) (semicolon : Token) (more : List Token) :
    Continues (readRule n t ts) (readRule n t (ts ++ semicolon :: more)) semicolon more := by
  rcases Rule.settles_read herrors with ⟨taken, htaken, _, hmore⟩
  refine Or.inl ?_
  have hread := hmore ((Rule.read n t ts).rest ++ semicolon :: more)
  rw [← List.append_assoc, htaken] at hread
  simp only [readRule, hread]

section

variable {n : Nesting} {semicolon : Token} (hsemicolon : semicolon.is Css.semicolon = true)
variable (more : List Token)
include hsemicolon

theorem parseRun_append_semicolon {input : List Token} (h : Sound n input) :
    parseRun n endsItem (input ++ semicolon :: more) =
      { parseRun n endsItem input with
        rest := (parseRun n endsItem input).rest ++ semicolon :: more } := by
  have herrors := (sound_parseRun n endsItem stopsAtEof_endsItem input h).1
  obtain ⟨taken, htaken, _, hmore⟩ :=
    settlesUpTo_parseRun n endsItem stopsAtEof_endsItem input herrors
  have hstands : StandsAt endsItem ((parseRun n endsItem input).rest ++ semicolon :: more) := by
    have hrest := standsAt_parseRun_rest n endsItem input
    cases hrun : (parseRun n endsItem input).rest with
    | nil => exact standsAt_cons more (by simp [endsItem, hsemicolon])
    | cons t ts =>
        rw [hrun] at hrest
        exact standsAt_cons _ (hrest t rfl)
  have hread := hmore _ hstands
  rw [← List.append_assoc, htaken] at hread
  exact hread

theorem continues_ofRun {input : List Token} (h : Sound n input) (value : List Token -> Item)
    (errors : List Token -> List StructureError -> List StructureError) :
    Continues (ofRun value errors (parseRun n endsItem input))
      (ofRun value errors (parseRun n endsItem (input ++ semicolon :: more))) semicolon more := by
  rw [parseRun_append_semicolon hsemicolon more h]
  cases hrest : (parseRun n endsItem input).rest with
  | nil =>
      refine Or.inr ⟨by simp only [ofRun, hrest]; rfl, ?_⟩
      simp only [ofRun, List.nil_append, afterItem_of_semicolon hsemicolon]
  | cons t ts =>
      refine Or.inl ?_
      simp only [ofRun, hrest, afterItem_cons_append]

/-- Every item in front of a semicolon is the same with more tokens behind it, and
closed brackets are left. -/
theorem continues_readItem {t : Token} {ts : List Token} (hfree : EofFree (t :: ts))
    (hblock : forall u, u ∈ t :: ts -> u.asBlock? = none) (h : Sound n (t :: ts))
    (hknown : forall r, (readItem n t ts).value = .rule r -> r.isUnknown = false) :
    Continues (readItem n t ts) (readItem n t (ts ++ semicolon :: more)) semicolon more ∧
      Sound n (readItem n t ts).rest := by
  have hrule : (readItem n t ts = readRule n t ts) ->
      (readItem n t (ts ++ semicolon :: more) = readRule n t (ts ++ semicolon :: more)) ->
      Continues (readItem n t ts) (readItem n t (ts ++ semicolon :: more)) semicolon more ∧
        Sound n (readItem n t ts).rest := by
    intro hread hread'
    rw [hread] at hknown
    rcases Rule.sound_read hfree hblock h (hknown _ rfl) with ⟨herrors, hrest⟩
    rw [hread, hread']
    exact ⟨continues_readRule herrors semicolon more, hrest⟩
  cases hat : t.is Css.atKeyword with
  | true => exact hrule (by rw [readItem, if_pos hat]) (by rw [readItem, if_pos hat])
  | false =>
      cases hident : t.is Css.ident with
      | true =>
          have hread : forall us, readItem n t us = readDeclaration n (t :: us) := fun us => by
            rw [readItem, if_neg (by simp [hat]), if_pos hident]
          rw [hread, hread, readDeclaration_eq_ofRun, readDeclaration_eq_ofRun]
          exact ⟨continues_ofRun hsemicolon more h _ _, sound_ofRun_rest h _ _⟩
      | false =>
          cases hmark : Css.isDelim t '&' with
          | true =>
              exact hrule
                (by rw [readItem, if_neg (by simp [hat]), if_neg (by simp [hident]), if_pos hmark])
                (by rw [readItem, if_neg (by simp [hat]), if_neg (by simp [hident]), if_pos hmark])
          | false =>
              have hread : forall us, readItem n t us = skipIllegal n t us := fun us => by
                rw [readItem, if_neg (by simp [hat]), if_neg (by simp [hident]),
                  if_neg (by simp [hmark])]
              rw [hread, hread, skipIllegal_eq_ofRun, skipIllegal_eq_ofRun]
              exact ⟨continues_ofRun hsemicolon more h _ _, sound_ofRun_rest h _ _⟩

end

/-!
## Blocks
-/

def append (a b : StyleBlock) : StyleBlock :=
  ⟨a.declarations ++ b.declarations, a.rules ++ b.rules⟩

theorem addTo_append (i : Item) (a b : StyleBlock) :
    (i.addTo a).append b = i.addTo (a.append b) := by
  cases i <;> rfl

theorem read_of_isSkipped (n : Nesting) {t : Token} (ts : List Token) (heof : t.isEof = false)
    (h : isSkipped t = true) : read n (t :: ts) = read n ts := by
  rw [read, if_neg (by simp [heof]), if_pos h]

theorem read_cons (n : Nesting) {t : Token} (ts : List Token) (heof : t.isEof = false)
    (h : isSkipped t = false) :
    read n (t :: ts) =
      ⟨(readItem n t ts).value.addTo (read n (readItem n t ts).rest).value,
        (readItem n t ts).errors ++ (read n (readItem n t ts).rest).errors,
        (read n (readItem n t ts).rest).rest⟩ := by
  rw [read, if_neg (by simp [heof]), if_neg (by simp [h])]

theorem read_semicolon (n : Nesting) {semicolon : Token}
    (h : semicolon.is Css.semicolon = true) (ts : List Token) :
    read n (semicolon :: ts) = read n ts :=
  read_of_isSkipped n ts (not_isEof_of_is h (by decide)) (by simp [isSkipped, h])

def AllKnown (b : StyleBlock) : Prop :=
  forall r, r ∈ b.rules -> r.isUnknown = false

theorem allKnown_addTo {i : Item} {b : StyleBlock} (h : AllKnown (i.addTo b)) :
    (forall r, i = .rule r -> r.isUnknown = false) ∧ AllKnown b := by
  cases i with
  | declaration d => exact ⟨fun r hr => (by cases hr), h⟩
  | nothing => exact ⟨fun r hr => (by cases hr), h⟩
  | rule r =>
      refine ⟨fun r' hr => ?_, fun r' hr' => h r' (List.mem_cons_of_mem r hr')⟩
      rcases Item.rule.inj hr with rfl
      exact h r List.mem_cons_self

theorem opens?_eq_none_of_isSkipped {t : Token} (ht : Css.Emitted t)
    (h : isSkipped t = true) : t.opens? = none := by
  rcases Bool.or_eq_true_iff.mp h with hquiet | hsemicolon
  · exact ht.opens?_eq_none hquiet
  · exact opens?_eq_none_of_is hsemicolon (by decide)

theorem read_append {n : Nesting} {semicolon : Token}
    (hsemicolon : semicolon.is Css.semicolon = true) (more : List Token) {ts : List Token}
    (hemitted : forall t, t ∈ ts -> Css.Emitted t) (hfree : EofFree ts) (h : Sound n ts)
    (hknown : AllKnown (read n ts).value) :
    (read n (ts ++ semicolon :: more)).value = (read n ts).value.append (read n more).value ∧
      (read n (ts ++ semicolon :: more)).errors = (read n ts).errors ++ (read n more).errors := by
  induction ts using StyleBlock.read.induct n with
  | case1 =>
      rw [List.nil_append, read_semicolon n hsemicolon, read]
      exact ⟨rfl, rfl⟩
  | case2 t ts heof =>
      rw [hfree t List.mem_cons_self] at heof
      cases heof
  | case3 t ts heof hskip ih =>
      have ht : t.isEof = false := hfree t List.mem_cons_self
      have ho := opens?_eq_none_of_isSkipped (hemitted t List.mem_cons_self) hskip
      rw [read_of_isSkipped n ts ht hskip] at hknown
      rw [List.cons_append, read_of_isSkipped n _ ht hskip, read_of_isSkipped n ts ht hskip]
      exact ih (fun u hu => hemitted u (List.mem_cons_of_mem t hu))
        (fun u hu => hfree u (List.mem_cons_of_mem t hu)) (sound_tail ht ho h) hknown
  | case4 t ts heof hskip first ih =>
      have ht : t.isEof = false := hfree t List.mem_cons_self
      have hread : isSkipped t = false := by simpa using hskip
      have hsuffix := (readItem_rest_suffix n ts hread ht).trans (List.suffix_cons t ts)
      rw [read_cons n ts ht hread] at hknown
      rcases allKnown_addTo hknown with ⟨hitem, hothers⟩
      obtain ⟨hcontinues, hrest⟩ := continues_readItem hsemicolon more hfree
        (fun u hu => (hemitted u hu).asBlock?_eq_none) h hitem
      obtain ⟨hvalue, herrors⟩ := ih (fun u hu => hemitted u (hsuffix.mem hu))
        (fun u hu => hfree u (hsuffix.mem hu)) hrest hothers
      rw [List.cons_append, read_cons n _ ht hread, read_cons n ts ht hread]
      rcases hcontinues with hleft | ⟨hnil, hleft⟩
      · rw [hleft, addTo_append, List.append_assoc]
        exact ⟨congrArg (readItem n t ts).value.addTo hvalue,
          congrArg ((readItem n t ts).errors ++ ·) herrors⟩
      · rw [hleft, hnil, addTo_append, List.append_assoc, read]
        exact ⟨rfl, rfl⟩

/-- Tokens with closed brackets and no unfinished rule, a semicolon and any other
tokens are read as the two parts are, one behind the other. -/
theorem read_append_semicolon (o : Options) {a : List Token} (b : List Token)
    {semicolon : Token} (hsemicolon : semicolon.is Css.semicolon = true)
    (hemitted : forall t, t ∈ a -> Css.Emitted t) (hfree : EofFree a)
    (hclosed : (readRun (.ofOptions o) Token.isEof a).errors = [])
    (hknown : AllKnown (read (.ofOptions o) a).value) :
    (read (.ofOptions o) (a ++ semicolon :: b)).value.declarations =
        (read (.ofOptions o) a).value.declarations ++
          (read (.ofOptions o) b).value.declarations ∧
      (read (.ofOptions o) (a ++ semicolon :: b)).value.rules =
        (read (.ofOptions o) a).value.rules ++ (read (.ofOptions o) b).value.rules ∧
      (read (.ofOptions o) (a ++ semicolon :: b)).errors =
        (read (.ofOptions o) a).errors ++ (read (.ofOptions o) b).errors := by
  rcases read_append hsemicolon b hemitted hfree hclosed hknown with ⟨hvalue, herrors⟩
  rw [hvalue]
  exact ⟨rfl, rfl, herrors⟩

def unruly : List Token :=
  [⟨Css.ident, .text "a", ⟨1, 1, 0⟩, none⟩, ⟨Css.semicolon, .none, ⟨1, 2, 1⟩, none⟩,
    ⟨Css.delim, .char '&', ⟨1, 3, 2⟩, none⟩, ⟨Css.openBrace, .none, ⟨1, 4, 3⟩, none⟩,
    ⟨Css.closeBrace, .none, ⟨1, 5, 4⟩, none⟩]

theorem readRun_unruly : (readRun (.ofOptions {}) Token.isEof unruly).errors = [] := by
  show (parseRun _ _ _).errors = []
  rw [unruly, parseRun_cons _ rfl, readComponent_of_opens_none _ _ rfl, parseRun_cons _ rfl,
    readComponent_of_opens_none _ _ rfl, parseRun_cons _ rfl,
    readComponent_of_opens_none _ _ rfl, parseRun_cons _ rfl,
    readComponent_eq_parseContents _ _ rfl, parseContents_of_not_full rfl,
    parseRun_of_standsAt (standsAt_cons _ rfl)]
  exact congrArg Parsed.errors (parseRun_of_standsAt (standsAt_nil _))

theorem read_unruly_twice :
    (readRun (.ofOptions {}) Token.isEof unruly).errors = [] ∧
      AllKnown (read (.ofOptions {}) unruly).value ∧
      (read (.ofOptions {}) (unruly ++ .bare Css.semicolon :: unruly)).errors =
        (read (.ofOptions {}) unruly).errors ++ (read (.ofOptions {}) unruly).errors := by
  have hcut : Css.tokenize {} "a;&\x7b\x7d" = unruly ++ [Token.eof.placed ⟨1, 6, 5⟩] := by
    with_unfolding_all rfl
  have hemitted : forall t, t ∈ unruly -> Css.Emitted t := by
    intro t ht
    refine ⟨{}, "a;&\x7b\x7d", ?_⟩
    rw [hcut]
    exact List.mem_append_left _ ht
  have hfree : EofFree unruly := by
    intro t ht
    have hall : (unruly.all fun t => !t.isEof) = true := by decide
    simpa using List.all_eq_true.mp hall t ht
  have hknown : AllKnown (read (.ofOptions {}) unruly).value := by
    intro r hr
    have hall : ((read (.ofOptions {}) unruly).value.rules.all fun r => !r.isUnknown) = true := by
      decide +kernel
    simpa using List.all_eq_true.mp hall r hr
  have hsemicolon : (Token.bare Css.semicolon).is Css.semicolon = true := by decide
  obtain ⟨_, _, herrors⟩ :=
    read_append_semicolon {} unruly hsemicolon hemitted hfree readRun_unruly hknown
  exact ⟨readRun_unruly, hknown, herrors⟩

end StyleBlock
end StyleTokens
