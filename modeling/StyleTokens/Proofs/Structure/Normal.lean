import StyleTokens.Proofs.Structure.Balanced
import StyleTokens.Proofs.Structure.Clean

/-!
# Declarations in normal form

A declaration that was read without an error can be written down again from its parts:
the name, a colon, the values and, if it is important, one mark of importance.  Reading
these gives the parts back, however the mark is spelled and whatever blanks stand around
them.  This holds although the values may themselves end in a mark: only the last one is
taken off.
-/

namespace StyleTokens

/-!
## Tokens that are values of their own
-/

/-- The token is read as one value, and nothing is wrong in it. -/
structure Token.Lone (t : Token) : Prop where
  opens_none : t.opens? = none
  not_eof : t.isEof = false
  lexical : t.lexicalErrors = []

def AllLone (ts : List Token) : Prop :=
  forall t, t ∈ ts -> t.Lone

def Spacing (ts : List Token) : Prop :=
  forall t, t ∈ ts -> t.isBlank = true ∧ t.Lone

theorem Spacing.blank {ts : List Token} (h : Spacing ts) {t : Token} (ht : t ∈ ts) :
    t.isBlank = true :=
  (h t ht).1

theorem Spacing.allLone {ts : List Token} (h : Spacing ts) : AllLone ts := by
  intro t ht
  exact (h t ht).2

theorem allLone_nil : AllLone [] := List.forall_mem_nil _

theorem AllLone.cons {t : Token} {ts : List Token} (ht : t.Lone) (h : AllLone ts) :
    AllLone (t :: ts) :=
  List.forall_mem_cons.mpr ⟨ht, h⟩

theorem AllLone.append {a b : List Token} (ha : AllLone a) (hb : AllLone b) :
    AllLone (a ++ b) :=
  List.forall_mem_append.mpr ⟨ha, hb⟩

theorem Token.Lone.of_is {t : Token} {k : Kind} (h : t.is k = true)
    (hopens : Css.openers.all (fun opening => !k.same opening) = true)
    (heof : k.same .eof = false) (hlexical : t.lexicalErrors = []) : t.Lone where
  opens_none := opens?_eq_none_of_is h hopens
  not_eof := not_isEof_of_is h heof
  lexical := hlexical

theorem single_of_mem_parseRun (n : Nesting) (ts : List Token) {t : Token}
    (ht : t ∈ (parseRun n Token.isEof ts).value) : t.opens? = none ∧ t.isEof = false := by
  induction ts using parseRun_induction n Token.isEof with
  | nil =>
      rw [parseRun_of_standsAt (standsAt_nil Token.isEof)] at ht
      cases ht
  | stopped u us h =>
      rw [parseRun_of_standsAt (standsAt_cons us h)] at ht
      cases ht
  | value u us h ih =>
      rw [parseRun_cons us h] at ht
      rcases List.mem_cons.mp ht with rfl | ht
      · cases ho : u.opens? with
        | none =>
            rw [readComponent_of_opens_none n us ho]
            exact ⟨ho, h⟩
        | some c =>
            rw [readComponent_of_opens n us ho]
            constructor
            · exact opens?_construct c _ _
            · exact not_is_construct c _ _ (by decide)
      · exact ih ht

theorem readRun_of_allLone (n : Nesting) {ts : List Token} (h : AllLone ts) :
    (readRun n Token.isEof ts).components = ts.map Outcome.success ∧
      (readRun n Token.isEof ts).rest = [] := by
  induction ts with
  | nil =>
      rw [readRun_nil]
      exact ⟨rfl, rfl⟩
  | cons t ts ih =>
      have ht : t.Lone := h t List.mem_cons_self
      obtain ⟨hcomponents, hrest⟩ := ih fun u hu => h u (List.mem_cons_of_mem t hu)
      constructor
      · rw [readRun_components_cons ts ht.not_eof, readComponent_of_opens_none n ts ht.opens_none,
          hcomponents]
        rfl
      · rw [readRun_rest_cons ts ht.not_eof, readComponent_of_opens_none n ts ht.opens_none, hrest]

/-!
## Blanks at the ends
-/

namespace Queue

theorem trimEnd_append_of_blank (ts : List Token) {blanks : List Token}
    (h : forall t, t ∈ blanks -> t.isBlank = true) : trimEnd (ts ++ blanks) = trimEnd ts := by
  rw [trimEnd, List.reverse_append,
    List.dropWhile_append_of_pos fun t ht => h t (List.mem_reverse.mp ht), trimEnd]

theorem trimEnd_of_getLast? {ts : List Token}
    (h : forall t, ts.getLast? = some t -> t.isBlank = false) : trimEnd ts = ts := by
  rw [trimEnd, ← List.reverse_inj, List.reverse_reverse]
  cases hreverse : ts.reverse with
  | nil => rfl
  | cons t before =>
      apply List.dropWhile_cons_of_neg
      rw [h t (by rw [List.getLast?_eq_head?_reverse, hreverse]; rfl)]
      exact Bool.false_ne_true

theorem trimEnd_concat (ts : List Token) {t : Token} (h : t.isBlank = false) :
    trimEnd (ts ++ [t]) = ts ++ [t] := by
  apply trimEnd_of_getLast?
  intro u hu
  rw [List.getLast?_concat] at hu
  rw [← Option.some.inj hu]
  exact h

theorem skipBlank_append {gap : List Token} (ts : List Token)
    (h : forall t, t ∈ gap -> isSkipped t = true) : skipBlank (gap ++ ts) = skipBlank ts :=
  List.dropWhile_append_of_pos h

theorem skipBlank_of_head? {ts : List Token}
    (h : forall t, ts.head? = some t -> isSkipped t = false) : skipBlank ts = ts := by
  cases ts with
  | nil => rfl
  | cons t ts => exact skipBlank_cons_of_neg ts (h t rfl)

end Queue

namespace Declaration

/-!
## The mark of importance
-/

theorem stripImportant_of_false {values : List Token} (h : (stripImportant values).2 = false) :
    stripImportant values = (values, false) := by
  unfold stripImportant at h ⊢
  split
  · rfl
  · rename_i last before hreverse
    rw [hreverse] at h
    simp only at h
    split
    · rename_i hword
      rw [if_pos hword] at h
      split
      · rfl
      · rename_i bang rest hrest
        rw [hrest] at h
        simp only at h
        split
        · rename_i hbang
          rw [if_pos hbang] at h
          cases h
        · rfl
    · rfl

def bang (l : Location) : Token := ⟨Css.delim, .char '!', l, none⟩

def word (s : String) (l : Location) : Token := ⟨Css.ident, .text s, l, none⟩

theorem lone_bang (l : Location) : (bang l).Lone :=
  .of_is (k := Css.delim) (Kind.same_refl _) (by decide) (by decide) rfl

theorem lone_word (s : String) (l : Location) : (word s l).Lone :=
  .of_is (Kind.same_refl Css.ident) (by decide) (by decide) rfl

/-- Of several marks at the end the last one is taken off, with the blanks before it. -/
theorem stripImportant_mark (values : List Token) {between : List Token} {s : String}
    (l l' : Location) (hbetween : Spacing between)
    (hword : Text.sameFolded s "important" = true) :
    stripImportant (values ++ (bang l :: between ++ [word s l'])) =
      (Queue.trimEnd values, true) := by
  have hreverse : (values ++ (bang l :: between ++ [word s l'])).reverse =
      word s l' :: (between.reverse ++ bang l :: values.reverse) := by
    simp
  have hback : (between.reverse ++ bang l :: values.reverse).dropWhile Token.isBlank =
      bang l :: values.reverse := by
    rw [List.dropWhile_append_of_pos fun t ht => hbetween.blank (List.mem_reverse.mp ht)]
    exact List.dropWhile_cons_of_neg Bool.false_ne_true
  have himportant : isImportantWord (word s l') = true := hword
  have hdelim : Css.isDelim (bang l) '!' = true := rfl
  unfold stripImportant
  simp only [hreverse, hback, himportant, hdelim, if_true, List.reverse_reverse]

/-!
## Normal declarations
-/

/-- What reading leaves of a declaration without errors: values of their own, with nothing
at either end that reading would take off. -/
structure Normal (d : Declaration) : Prop where
  nonempty : d.values ≠ []
  first : forall t, d.values.head? = some t -> Queue.isSkipped t = false
  trimmed : Queue.trimEnd d.values = d.values
  lone : AllLone d.values
  unmarked : d.important = false -> stripImportant d.values = (d.values, false)

theorem normal_readValues {n : Nesting} {name : String} {l : Location} {input : List Token}
    (hfirst : forall t, input.head? = some t -> Queue.isSkipped t = false)
    (herrors : (readValues n name l input).errors = []) :
    (readValues n name l input).value.Normal := by
  have hfront := values_front n name l input
  constructor
  · exact values_ne_nil_of_errors_nil herrors
  · intro t ht
    exact not_isSkipped_of_head?_values hfirst ht
  · apply Queue.trimEnd_of_getLast?
    intro t ht
    exact not_isBlank_of_getLast?_values ht
  · intro t ht
    obtain ⟨hopens, heof⟩ := single_of_mem_parseRun n input (hfront.mem ht)
    constructor
    · exact hopens
    · exact heof
    · exact lexicalErrors_nil_of_mem
        (runLexicalErrors_of_components (List.append_eq_nil_iff.mp herrors).1) (hfront.mem ht)
  · intro hunmarked
    have hstripped := stripImportant_of_false hunmarked
    show stripImportant (stripImportant _).1 = ((stripImportant _).1, false)
    rw [hstripped]
    exact hstripped

theorem normal_read {n : Nesting} {input : List Token} (herrors : (read n input).errors = []) :
    (read n input).value.Normal := by
  obtain ⟨t, rest, -, -, -, hread⟩ := read_of_errors_nil herrors
  rw [hread] at herrors ⊢
  exact normal_readValues (fun u hu => Queue.not_isSkipped_of_head?_skipBlank hu) herrors

/-!
## Spellings
-/

/-- What may follow the values: blanks, with a mark of importance in any case among them
if there is one. -/
inductive Ending : Bool -> List Token -> Prop where
  | plain {after : List Token} (hafter : Spacing after) : Ending false after
  | marked {before between after : List Token} {s : String} (l l' : Location)
      (hbefore : Spacing before) (hbetween : Spacing between)
      (hword : Text.sameFolded s "important" = true) (hafter : Spacing after) :
      Ending true (before ++ (bang l :: between ++ [word s l']) ++ after)

/-- The runs that spell a declaration: its name, a colon and its values, with blanks around
each of them, and an ending. -/
inductive Spells (d : Declaration) : List Token -> Prop where
  | intro {gap lead ending : List Token} (l l' : Location)
      (hgap : forall t, t ∈ gap -> Queue.isSkipped t = true)
      (hlead : forall t, t ∈ lead -> Queue.isSkipped t = true)
      (hending : Ending d.important ending) :
      Spells d (word d.name l :: (gap ++ ⟨Css.colon, .none, l', none⟩ ::
        (lead ++ (d.values ++ ending))))

def usualEnding : Bool -> List Token
  | false => []
  | true => [.bare Css.whitespace, bang .unknown, word "important" .unknown]

def tokens (d : Declaration) : List Token :=
  word d.name .unknown :: .bare Css.colon :: (d.values ++ usualEnding d.important)

theorem spacing_nil : Spacing [] := List.forall_mem_nil _

theorem ending_usualEnding (important : Bool) : Ending important (usualEnding important) := by
  cases important with
  | false => exact .plain spacing_nil
  | true =>
      have hspace : Spacing [.bare Css.whitespace] := by
        intro t ht
        rw [List.mem_singleton.mp ht]
        constructor
        · rfl
        · exact .of_is (Kind.same_refl Css.whitespace) (by decide) (by decide) rfl
      exact .marked .unknown .unknown hspace spacing_nil (by decide) spacing_nil

theorem spells_tokens (d : Declaration) : d.Spells d.tokens := by
  have hnone : forall t, t ∈ ([] : List Token) -> Queue.isSkipped t = true := List.forall_mem_nil _
  exact .intro .unknown .unknown hnone hnone (ending_usualEnding d.important)

theorem Ending.allLone {important : Bool} {ending : List Token} (h : Ending important ending) :
    AllLone ending := by
  cases h with
  | plain hafter => exact hafter.allLone
  | marked l l' hbefore hbetween hword hafter =>
      apply AllLone.append
      · apply AllLone.append
        · exact hbefore.allLone
        · exact .cons (lone_bang l) (hbetween.allLone.append (.cons (lone_word _ l') allLone_nil))
      · exact hafter.allLone

namespace Normal

variable {d : Declaration}

/-- Taking the ending off leaves the values, even if these end in a mark of their own. -/
theorem strip_ending (h : d.Normal) {ending : List Token} (hending : Ending d.important ending) :
    stripImportant (Queue.trimEnd (d.values ++ ending)) = (d.values, d.important) := by
  generalize hflag : d.important = important at hending
  cases hending with
  | plain hafter =>
      rw [Queue.trimEnd_append_of_blank _ fun t ht => hafter.blank ht, h.trimmed]
      exact h.unmarked hflag
  | @marked before between after s l l' hbefore hbetween hword hafter =>
      have hend : Queue.trimEnd (d.values ++ before ++ (bang l :: between ++ [word s l'])) =
          d.values ++ before ++ (bang l :: between ++ [word s l']) := by
        rw [<- List.append_assoc]
        exact Queue.trimEnd_concat _ rfl
      rw [<- List.append_assoc, Queue.trimEnd_append_of_blank _ fun t ht => hafter.blank ht,
        <- List.append_assoc, hend, stripImportant_mark _ l l' hbetween hword,
        Queue.trimEnd_append_of_blank _ fun t ht => hbefore.blank ht, h.trimmed]

theorem readValues_spelled (h : d.Normal) {ending : List Token}
    (hending : Ending d.important ending) (n : Nesting) (name : String) (l : Location) :
    readValues n name l (d.values ++ ending) =
      ⟨{ name, values := d.values, important := d.important, location := l }, [], []⟩ := by
  have hlone : AllLone (d.values ++ ending) := h.lone.append hending.allLone
  obtain ⟨hcomponents, hrest⟩ := readRun_of_allLone n hlone
  have hvalues : (readRun n Token.isEof (d.values ++ ending)).values = d.values ++ ending := by
    rw [Run.values, hcomponents, List.map_map]
    exact List.map_id _
  have herrors : (readRun n Token.isEof (d.values ++ ending)).components.flatMap
      componentErrors = [] := by
    rw [hcomponents, List.flatMap_map, List.flatMap_eq_nil_iff]
    intro t ht
    exact (hlone t ht).lexical
  have hnonempty : d.values.isEmpty = false := by
    rw [List.isEmpty_eq_false_iff]
    exact h.nonempty
  simp only [readValues, hvalues, herrors, hrest, h.strip_ending hending, hnonempty]
  rfl

theorem read_spelled (h : d.Normal) {ts : List Token} (hts : d.Spells ts) (n : Nesting) :
    exists l, read n ts =
      ⟨{ name := d.name, values := d.values, important := d.important, location := l },
        [], []⟩ := by
  cases hts with
  | @intro gap lead ending l l' hgap hlead hending =>
      have hfirst : forall t, (d.values ++ ending).head? = some t -> Queue.isSkipped t = false := by
        rw [List.head?_append_of_ne_nil _ h.nonempty]
        exact h.first
      exists l
      have hcolon : forall ts, Queue.skipBlank (⟨Css.colon, .none, l', none⟩ :: ts) =
          ⟨Css.colon, .none, l', none⟩ :: ts := fun ts => Queue.skipBlank_cons_of_neg ts rfl
      rw [read, if_pos (show (word d.name l).is Css.ident = true from rfl),
        Queue.skipBlank_append _ hgap, hcolon]
      show readValues n d.name l (Queue.skipBlank (lead ++ (d.values ++ ending))) = _
      rw [Queue.skipBlank_append _ hlead, Queue.skipBlank_of_head? hfirst]
      exact h.readValues_spelled hending n d.name l

end Normal

/-- The run is read without an error, as a declaration with the parts of this one. -/
structure ReadFrom (d : Declaration) (n : Nesting) (ts : List Token) : Prop where
  errors : (read n ts).errors = []
  name : (read n ts).value.name = d.name
  values : (read n ts).value.values = d.values
  important : (read n ts).value.important = d.important

theorem Normal.readFrom {d : Declaration} (h : d.Normal) {ts : List Token} (hts : d.Spells ts)
    (n : Nesting) : d.ReadFrom n ts := by
  obtain ⟨l, hread⟩ := h.read_spelled hts n
  constructor
  · rw [hread]
  · rw [hread]
  · rw [hread]
  · rw [hread]

/-- A declaration that was read without an error is read again from its own parts, in every
spelling of them and whatever the limit on nesting. -/
theorem read_tokens (n m : Nesting) {input : List Token} (h : (read n input).errors = []) :
    (read n input).value.ReadFrom m (read n input).value.tokens ∧
      forall ts, (read n input).value.Spells ts -> (read n input).value.ReadFrom m ts := by
  have hnormal : (read n input).value.Normal := normal_read h
  constructor
  · exact hnormal.readFrom (spells_tokens _) m
  · intro ts hts
    exact hnormal.readFrom hts m

def marked : List Token :=
  [.ofText Css.ident ['a'], .bare Css.whitespace, .bare Css.colon, .ofText Css.comment [],
    (Construct.call "f").token [.ofText Css.ident ['b']] ⟨1, 3, 2⟩, .of Css.delim (.char '!'),
    .bare Css.whitespace, .ofText Css.ident "Important".toList, .bare Css.whitespace,
    .of Css.delim (.char '!'), .ofText Css.comment [], .ofText Css.ident "IMPORTANT".toList,
    .bare Css.whitespace, .eof]

/-- The first mark stays among the values, and is not taken off when they are read again. -/
theorem read_tokens_marked :
    (read (.ofOptions {}) marked).errors = [] ∧
      (read (.ofOptions {}) marked).value.valueSource = "f(b)! Important" ∧
      (read (.ofOptions {}) marked).value.ReadFrom ⟨0, 0⟩
        (read (.ofOptions {}) marked).value.tokens := by
  have hread : read (.ofOptions {}) marked =
      ⟨{ name := "a"
         values := [(Construct.call "f").token [.ofText Css.ident ['b']] ⟨1, 3, 2⟩,
           .of Css.delim (.char '!'), .bare Css.whitespace,
           .ofText Css.ident "Important".toList]
         important := true
         location := .unknown }, [], [.eof]⟩ := by
    with_unfolding_all rfl
  have herrors : (read (.ofOptions {}) marked).errors = [] := by rw [hread]
  constructor
  · exact herrors
  · constructor
    · rw [hread]
      decide
    · exact (read_tokens (.ofOptions {}) ⟨0, 0⟩ herrors).1

end Declaration

end StyleTokens
