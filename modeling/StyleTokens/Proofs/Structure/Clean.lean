import StyleTokens.Proofs.Structure.Kept
import StyleTokens.Proofs.Structure.Resync

/-!
# Clean declarations

Only messages are looked for when a declaration is checked, so a malformed token in its
values is noticed exactly because it carries a message.  Values without a message, at
every depth, are therefore well formed.  Taking blanks and a mark of importance off their
end leaves a front of them, and a declaration without any is not kept.
-/

namespace StyleTokens

/-- A token of a faulty kind has a message, and a name is not empty. -/
structure Token.Regular (t : Token) : Prop where
  message : t.kind.faulty = true -> t.error.isSome = true
  name : t.is Css.ident = true -> t.text ≠ ""

namespace Token.Regular

variable {t : Token}

theorem of_not_faulty (h : t.kind.faulty = false) (hname : t.is Css.ident = true -> t.text ≠ "") :
    t.Regular where
  message := by
    intro hfaulty
    rw [h] at hfaulty
    cases hfaulty
  name := hname

theorem of_error (h : t.error.isSome = true) (hkind : t.kind.same Css.ident = false) :
    t.Regular where
  message := fun _ => h
  name := by
    intro hident
    rw [Token.is, hkind] at hident
    cases hident

theorem of_kind (h : t.kind.faulty = false ∧ t.kind.same Css.ident = false) : t.Regular := by
  apply of_not_faulty h.1
  intro hident
  rw [Token.is, h.2] at hident
  cases hident

end Token.Regular

theorem regular_construct (c : Construct) (values : List Token) (l : Location) :
    (c.token values l).Regular := by
  have hkinds : forall k, k ∈ [Css.simpleBlock, Css.functionBlock] ->
      k.faulty = false ∧ k.same Css.ident = false := by
    decide
  cases c with
  | block opening closing => exact .of_kind (hkinds Css.simpleBlock (by simp))
  | call name => exact .of_kind (hkinds Css.functionBlock (by simp))

/-!
## Lexical errors
-/

theorem lexicalErrors_nil {t : Token} (h : t.lexicalErrors = []) :
    t.error = none ∧ Token.runLexicalErrors t.values = [] := by
  cases t with
  | mk kind payload location error =>
      obtain ⟨hown, hinside⟩ := List.append_eq_nil_iff.mp h
      constructor
      · cases error with
        | none => rfl
        | some message => cases hown
      · cases payload with
        | block b =>
            cases b
            exact hinside
        | call c =>
            cases c
            exact hinside
        | _ => rfl

theorem lexicalErrors_nil_of_mem {t : Token} {ts : List Token}
    (h : Token.runLexicalErrors ts = []) (ht : t ∈ ts) : t.lexicalErrors = [] := by
  induction ts with
  | nil => cases ht
  | cons u ts ih =>
      obtain ⟨hfirst, hothers⟩ := List.append_eq_nil_iff.mp h
      rcases List.mem_cons.mp ht with rfl | ht
      · exact hfirst
      · exact ih hothers ht

theorem error_eq_none_of_within {t : Token} {ts : List Token} (ht : Within t ts)
    (h : Token.runLexicalErrors ts = []) : t.error = none := by
  induction ht with
  | here ht => exact (lexicalErrors_nil (lexicalErrors_nil_of_mem h ht)).1
  | inside hu _ ih => exact ih (lexicalErrors_nil (lexicalErrors_nil_of_mem h hu)).2

theorem runLexicalErrors_of_components {components : List Component}
    (h : components.flatMap Declaration.componentErrors = []) :
    Token.runLexicalErrors (components.map Outcome.value) = [] := by
  induction components with
  | nil => rfl
  | cons c components ih =>
      obtain ⟨hfirst, hothers⟩ := List.append_eq_nil_iff.mp h
      have hvalue : c.value.lexicalErrors = [] := (List.append_eq_nil_iff.mp hfirst).2
      show c.value.lexicalErrors ++ Token.runLexicalErrors (components.map Outcome.value) = []
      rw [hvalue, ih hothers]
      rfl

/-!
## The ends of the values
-/

namespace Queue

theorem trimEnd_front (ts : List Token) : trimEnd ts <+: ts := by
  have hsuffix : ts.reverse.dropWhile Token.isBlank <:+ ts.reverse := List.dropWhile_suffix _
  rw [trimEnd, <- List.reverse_suffix, List.reverse_reverse]
  exact hsuffix

theorem not_isBlank_of_getLast?_trimEnd {ts : List Token} {t : Token}
    (h : (trimEnd ts).getLast? = some t) : t.isBlank = false := by
  have hnot := List.head?_dropWhile_not Token.isBlank ts.reverse
  rw [trimEnd, List.getLast?_reverse] at h
  rw [h] at hnot
  exact hnot

theorem not_isSkipped_of_head?_skipBlank {ts : List Token} {t : Token}
    (h : (skipBlank ts).head? = some t) : isSkipped t = false := by
  have hnot := List.head?_dropWhile_not isSkipped ts
  rw [← skipBlank, h] at hnot
  exact hnot

end Queue

theorem not_isSkipped_of_head?_parseRun {n : Nesting} {stop : Predicate} {ts : List Token}
    (h : forall t, ts.head? = some t -> Queue.isSkipped t = false) {u : Token}
    (hu : (parseRun n stop ts).value.head? = some u) : Queue.isSkipped u = false := by
  cases ts with
  | nil =>
      rw [parseRun_of_standsAt (standsAt_nil stop)] at hu
      cases hu
  | cons t ts =>
      cases hstop : stop t with
      | true =>
          rw [parseRun_of_standsAt (standsAt_cons ts hstop)] at hu
          cases hu
      | false =>
          rw [parseRun_cons ts hstop] at hu
          rcases Option.some.inj hu with rfl
          cases ho : t.opens? with
          | none =>
              rw [readComponent_of_opens_none n ts ho]
              exact h t rfl
          | some c =>
              rw [readComponent_of_opens n ts ho]
              cases c <;> rfl

theorem not_isBlank_of_not_isSkipped {t : Token} (h : Queue.isSkipped t = false) :
    t.isBlank = false :=
  (Bool.or_eq_false_iff.mp h).1

namespace Declaration

theorem stripImportant_front (values : List Token) : (stripImportant values).1 <+: values := by
  unfold stripImportant
  split
  · exact List.prefix_refl values
  · rename_i last before hreverse
    split
    · split
      · exact List.prefix_refl values
      · rename_i bang rest hrest
        split
        · have hsuffix : rest <:+ values.reverse := by
            rw [hreverse]
            exact (List.suffix_cons bang rest).trans
              ((hrest ▸ List.dropWhile_suffix _).trans (List.suffix_cons last before))
          refine (Queue.trimEnd_front rest.reverse).trans ?_
          rw [<- List.reverse_suffix, List.reverse_reverse]
          exact hsuffix
        · exact List.prefix_refl values
    · exact List.prefix_refl values

theorem not_isBlank_of_getLast?_stripImportant {values : List Token}
    (h : forall t, values.getLast? = some t -> t.isBlank = false) {t : Token}
    (ht : (stripImportant values).1.getLast? = some t) : t.isBlank = false := by
  unfold stripImportant at ht
  split at ht
  · exact h t ht
  · split at ht
    · split at ht
      · exact h t ht
      · split at ht
        · exact Queue.not_isBlank_of_getLast?_trimEnd ht
        · exact h t ht
    · exact h t ht

/-!
## Declarations
-/

/-- A declaration with a name and values, without a blank at either end and without a
malformed token at any depth. -/
structure Clean (d : Declaration) : Prop where
  name : d.name ≠ ""
  values : d.values ≠ []
  first : forall t, d.values.head? = some t -> t.isBlank = false
  last : forall t, d.values.getLast? = some t -> t.isBlank = false
  faultless : AllWithin (fun t => t.isFaulty = false) d.values

theorem faultless_of_errors_nil {n : Nesting} {name : String} {l : Location}
    {input : List Token} (h : AllWithin Token.Regular input)
    (herrors : (readValues n name l input).errors = []) :
    AllWithin (fun t => t.isFaulty = false) (parseRun n Token.isEof input).value := by
  have hregular := allWithin_parseRun regular_construct n Token.isEof input h
  have hlexical : Token.runLexicalErrors (parseRun n Token.isEof input).value = [] :=
    runLexicalErrors_of_components (List.append_eq_nil_iff.mp herrors).1
  intro t ht
  have hnone : t.error = none := error_eq_none_of_within ht hlexical
  have hkind : t.kind.faulty = false := by
    rw [Bool.eq_false_iff]
    intro hfaulty
    have hsome := (hregular t ht).message hfaulty
    rw [hnone] at hsome
    cases hsome
  rw [Token.isFaulty, hkind, hnone]
  rfl

theorem values_ne_nil_of_errors_nil {n : Nesting} {name : String} {l : Location}
    {input : List Token} (herrors : (readValues n name l input).errors = []) :
    (readValues n name l input).value.values ≠ [] := by
  intro hnil
  have hempty : (stripImportant (Queue.trimEnd (readRun n Token.isEof input).values)).1.isEmpty =
      true := List.isEmpty_iff.mpr hnil
  have hreported := (List.append_eq_nil_iff.mp herrors).2
  rw [if_pos hempty] at hreported
  cases hreported

theorem values_front (n : Nesting) (name : String) (l : Location) (input : List Token) :
    (readValues n name l input).value.values <+: (parseRun n Token.isEof input).value :=
  (stripImportant_front _).trans (Queue.trimEnd_front _)

theorem not_isSkipped_of_head?_values {n : Nesting} {name : String} {l : Location}
    {input : List Token} (h : forall t, input.head? = some t -> Queue.isSkipped t = false)
    {t : Token} (ht : (readValues n name l input).value.values.head? = some t) :
    Queue.isSkipped t = false := by
  obtain ⟨more, hmore⟩ := values_front n name l input
  have hhead : (parseRun n Token.isEof input).value.head? = some t := by
    rw [← hmore, List.head?_append, ht]
    rfl
  exact not_isSkipped_of_head?_parseRun h hhead

theorem not_isBlank_of_getLast?_values {n : Nesting} {name : String} {l : Location}
    {input : List Token} {t : Token}
    (ht : (readValues n name l input).value.values.getLast? = some t) : t.isBlank = false :=
  not_isBlank_of_getLast?_stripImportant
    (fun _ hu => Queue.not_isBlank_of_getLast?_trimEnd hu) ht

theorem clean_readValues {n : Nesting} {name : String} {l : Location} {input : List Token}
    (hname : name ≠ "") (h : AllWithin Token.Regular input)
    (hfirst : forall t, input.head? = some t -> Queue.isSkipped t = false)
    (herrors : (readValues n name l input).errors = []) :
    (readValues n name l input).value.Clean := by
  constructor
  · exact hname
  · exact values_ne_nil_of_errors_nil herrors
  · intro t ht
    exact not_isBlank_of_not_isSkipped (not_isSkipped_of_head?_values hfirst ht)
  · intro t ht
    exact not_isBlank_of_getLast?_values ht
  · exact (faultless_of_errors_nil h herrors).subset fun t ht => (values_front ..).mem ht

theorem read_of_errors_nil {n : Nesting} {input : List Token}
    (herrors : (read n input).errors = []) :
    exists t rest, t ∈ input ∧ t.is Css.ident = true ∧ Queue.skipBlank rest <:+ input ∧
      read n input = readValues n t.text t.location (Queue.skipBlank rest) := by
  cases input with
  | nil => cases herrors
  | cons t ts =>
      cases hident : t.is Css.ident with
      | false =>
          rw [read, if_neg (by simp [hident])] at herrors
          cases herrors
      | true =>
          rw [read, if_pos hident] at herrors ⊢
          have hsuffix := Queue.pollIf_suffix (Predicate.ofKind Css.colon) (Queue.skipBlank ts)
          rcases hpoll : Queue.pollIf (Predicate.ofKind Css.colon) (Queue.skipBlank ts) with
            ⟨colon?, rest⟩
          rw [hpoll] at herrors hsuffix
          cases colon? with
          | none => cases herrors
          | some colon =>
              have hvalues : Queue.skipBlank rest <:+ t :: ts :=
                (Queue.skipBlank_suffix rest).trans
                  ((hsuffix.trans (Queue.skipBlank_suffix ts)).trans (List.suffix_cons t ts))
              exact ⟨t, rest, List.mem_cons_self, hident, hvalues, rfl⟩

theorem clean_read {n : Nesting} {input : List Token} (h : AllWithin Token.Regular input)
    (herrors : (read n input).errors = []) : (read n input).value.Clean := by
  obtain ⟨t, rest, ht, hident, hvalues, hread⟩ := read_of_errors_nil herrors
  rw [hread] at herrors ⊢
  apply clean_readValues
  · exact (h t (.here ht)).name hident
  · exact h.subset fun u hu => hvalues.mem hu
  · exact fun u hu => Queue.not_isSkipped_of_head?_skipBlank hu
  · exact herrors

end Declaration

/-!
## Style blocks
-/

namespace StyleBlock

def Item.Regular : Item -> Prop
  | declaration d => d.Clean
  | rule r => AllWithin Token.Regular r.values
  | nothing => True

/-- Clean declarations, and rules with values that are regular at every depth. -/
structure Regular (b : StyleBlock) : Prop where
  declarations : forall d, d ∈ b.declarations -> d.Clean
  rules : forall r, r ∈ b.rules -> AllWithin Token.Regular r.values

theorem regular_empty : empty.Regular where
  declarations := by
    intro d hd
    cases hd
  rules := by
    intro r hr
    cases hr

theorem Regular.addTo {i : Item} {b : StyleBlock} (h : b.Regular) (hi : i.Regular) :
    (i.addTo b).Regular := by
  cases i with
  | declaration d =>
      refine ⟨fun e he => ?_, h.rules⟩
      rcases List.mem_cons.mp he with rfl | he
      · exact hi
      · exact h.declarations e he
  | rule r =>
      refine ⟨h.declarations, fun q hq => ?_⟩
      rcases List.mem_cons.mp hq with rfl | hq
      · exact hi
      · exact h.rules q hq
  | nothing => exact h

theorem regular_readItem (n : Nesting) {t : Token} {ts : List Token}
    (h : AllWithin Token.Regular (t :: ts)) : (readItem n t ts).value.Regular := by
  have hrule : (readRule n t ts).value.Regular := Rule.allWithin_read regular_construct n h
  unfold readItem
  split
  · exact hrule
  · split
    · simp only [readDeclaration]
      split
      · rename_i herrors
        exact Declaration.clean_read (allWithin_parseRun regular_construct n endsItem _ h)
          (List.isEmpty_iff.mp herrors)
      · trivial
    · split
      · exact hrule
      · trivial

/-- Of tokens that are regular at every depth, every declaration of a style block is clean
and every rule of it holds regular values again. -/
theorem regular_read (n : Nesting) (ts : List Token) (h : AllWithin Token.Regular ts) :
    (read n ts).value.Regular := by
  induction ts using read.induct n with
  | case1 =>
      rw [read]
      exact regular_empty
  | case2 t ts heof =>
      rw [read, if_pos heof]
      exact regular_empty
  | case3 t ts heof hskip ih =>
      rw [read_of_isSkipped n ts (by simpa using heof) hskip]
      exact ih (h.subset fun u hu => List.mem_cons_of_mem t hu)
  | case4 t ts heof hskip first ih =>
      have ht : t.isEof = false := by simpa using heof
      have hread : isSkipped t = false := by simpa using hskip
      have hrest := (readItem_rest_suffix n ts hread ht).trans (List.suffix_cons t ts)
      rw [read_cons n ts ht hread]
      exact (ih (h.subset fun u hu => hrest.mem hu)).addTo (regular_readItem n h)

/-- A name with a value that is marked as important, and a name with an unfinished string. -/
example :
    ((read (.ofOptions {})
      [.ofText Css.ident ['a'], .bare Css.colon, .bare Css.whitespace, .ofText Css.ident ['b'],
        .bare Css.whitespace, .of Css.delim (.char '!'), .ofText Css.ident "important".toList,
        .bare Css.semicolon, .ofText Css.ident ['c'], .bare Css.colon,
        (Token.ofText Css.badString ['d']).withError "unterminated"]).value.declarations.map
      fun d => (d.name, d.valueSource, d.important)) = [("a", "b", true)] := by
  decide +kernel

end StyleBlock

end StyleTokens
