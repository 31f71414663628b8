import StyleTokens.Proofs.Queue.Standing
import StyleTokens.Proofs.Strategy.Segments
import StyleTokens.Strategy.Composed

/-!
# Lists are split and read segment by segment

A list without delimiters and gates goes on to the end of the text.  Its entries are those
of the segments between the separators, each read on its own behind the blanks in front of
it; only a last segment without anything but blanks gives none.
-/

namespace StyleTokens

theorem not_isSkipped_of_isEof {t : Token} (heof : t.isEof = true) (hblank : t.isBlank = false) :
    Queue.isSkipped t = false := by
  simp [Queue.isSkipped, heof, hblank]

namespace Queue

def EndsPlainly (ts : List Token) : Prop :=
  forall t, (onward Token.isEof ts).head? = some t -> t.isBlank = false

theorem EndsPlainly.not_isSkipped {t : Token} {ts : List Token} (h : EndsPlainly (t :: ts))
    (heof : t.isEof = true) : isSkipped t = false := by
  apply not_isSkipped_of_isEof heof
  apply h
  rw [onward_of_standsAt (standsAt_cons ts heof)]
  rfl

theorem EndsPlainly.congr {ts us : List Token} (h : EndsPlainly ts)
    (heq : onward Token.isEof us = onward Token.isEof ts) : EndsPlainly us := by
  intro t ht
  rw [heq] at ht
  exact h t ht

end Queue

namespace ListShape

/-!
## Segments
-/

/-- The list has no delimiters and no gates, and no end of the text separates elements. -/
structure Plain (s : ListShape) : Prop where
  opens_eq : s.opens = none
  closes_eq : s.closes = none
  gates_eq : s.gates = []
  separator_of_isEof : forall t, t.isEof = true -> s.separator t = false

def split (s : ListShape) (ts : List Token) : List (List Token) :=
  (Queue.before Token.isEof ts).splitOnP s.separator

theorem split_ne_nil (s : ListShape) (ts : List Token) : s.split ts ≠ [] :=
  List.splitOnP_ne_nil _ _

/-- The segments that give an entry: all but a last one that holds only blanks. -/
def occupied : List (List Token) -> List (List Token)
  | [] => []
  | [seg] => if seg.all Queue.isSkipped then [] else [seg]
  | seg :: next :: segs => seg :: occupied (next :: segs)

theorem occupied_cons {segs : List (List Token)} (seg : List Token) (h : segs ≠ []) :
    occupied (seg :: segs) = seg :: occupied segs := by
  cases segs with
  | nil => exact absurd rfl h
  | cons next segs => rfl

theorem getElem?_occupied (segs : List (List Token)) (i : Nat) :
    (occupied segs)[i]? =
      segs[i]?.filter fun seg => decide (i + 1 < segs.length) || !seg.all Queue.isSkipped := by
  induction segs generalizing i with
  | nil => rfl
  | cons seg segs ih =>
      cases segs with
      | nil =>
          cases hblank : seg.all Queue.isSkipped with
          | false => cases i <;> simp [occupied, hblank, Option.filter]
          | true => cases i <;> simp [occupied, hblank, Option.filter]
      | cons next segs =>
          rw [occupied_cons seg (List.cons_ne_nil next segs)]
          cases i with
          | zero => simp [Option.filter]
          | succ i => simp [ih]

theorem occupied_modifyHead {t : Token} (ht : Queue.isSkipped t = true)
    (segs : List (List Token)) :
    (occupied (segs.modifyHead (t :: ·))).map Queue.skipBlank =
      (occupied segs).map Queue.skipBlank := by
  have hskip : forall seg, Queue.skipBlank (t :: seg) = Queue.skipBlank seg :=
    fun seg => Queue.skipBlank_cons_of_pos seg ht
  rcases segs with _ | ⟨seg, _ | ⟨next, segs⟩⟩
  · rfl
  · simp only [List.modifyHead_cons, occupied, List.all_cons, ht, Bool.true_and]
    split
    · rfl
    · rw [List.map_singleton, List.map_singleton, hskip]
  · simp only [List.modifyHead_cons, occupied, List.map_cons, hskip]

section Plain

variable {s : ListShape} (hs : s.Plain)
include hs

theorem Plain.isEnd_eq (t : Token) : s.isEnd t = false := by
  rw [isEnd, hs.closes_eq]
  rfl

theorem Plain.isGate_eq (t : Token) : s.isGate t = false := by
  rw [isGate, hs.gates_eq]
  rfl

theorem Plain.isStop_eq (t : Token) : s.isStop t = (t.isEof || s.separator t) := by
  rw [isStop, hs.isEnd_eq, hs.isGate_eq, Bool.and_false, Bool.or_false, Bool.or_false]
  rfl

theorem Plain.isLoose_eq (t : Token) :
    s.isLoose t = (Queue.isSkipped t && !s.separator t) := by
  rw [isLoose, hs.isEnd_eq, hs.isGate_eq]
  simp [isSeparator]

theorem Plain.isStop_of_separator {t : Token} (h : s.separator t = true) :
    s.isStop t = true := by
  rw [hs.isStop_eq, h, Bool.or_true]

theorem Plain.not_isEof {t : Token} (h : s.separator t = true) : t.isEof = false := by
  rw [Bool.eq_false_iff]
  intro heof
  rw [hs.separator_of_isEof t heof] at h
  cases h

theorem Plain.not_isStop {seg : List Token} (hseg : forall t, t ∈ seg -> s.isStop t = false) :
    (forall t, t ∈ seg -> t.isEof = false) ∧ forall t, t ∈ seg -> s.separator t = false := by
  constructor
  · intro t ht
    exact not_isEof_of_not_isStop (hseg t ht)
  · intro t ht
    have hstop := hseg t ht
    rw [hs.isStop_eq, Bool.or_eq_false_iff] at hstop
    exact hstop.2

theorem Plain.split_separator {seg : List Token}
    (hseg : forall t, t ∈ seg -> s.isStop t = false) {u : Token} (us : List Token)
    (hu : s.separator u = true) : s.split (seg ++ u :: us) = seg :: s.split us := by
  obtain ⟨heof, hseparator⟩ := hs.not_isStop hseg
  rw [split, Queue.before_append _ heof, Queue.before_cons_of_neg us (hs.not_isEof hu)]
  exact List.splitOnP_append_cons_of_forall_mem hseparator u hu _

theorem Plain.split_end {seg rest : List Token}
    (hseg : forall t, t ∈ seg -> s.isStop t = false) (hrest : StandsAt Token.isEof rest) :
    s.split (seg ++ rest) = [seg] := by
  obtain ⟨heof, hseparator⟩ := hs.not_isStop hseg
  rw [split, Queue.before_append rest heof, Queue.before_of_standsAt hrest,
    List.append_nil]
  exact List.splitOnP_eq_singleton hseparator

/-!
## The cuts

The queue is followed from one entry to the next.  What one turn does depends on the first
token: a blank is skipped, a separator ends an empty segment, the end of the text ends the
list, and any other token starts a segment that goes on to a separator or to the end.
-/

omit hs in
theorem cut_loose (start : Location) {t : Token} (ts : List Token)
    (h : s.isLoose t = true) : (s.cut start (t :: ts)).parts = (s.cut start ts).parts := by
  rw [cut, if_pos h]
  rfl

theorem Plain.cut_end (start : Location) {ts : List Token} (h : StandsAt Token.isEof ts)
    (hplain : Queue.EndsPlainly ts) : (s.cut start ts).parts = ([], [], ts) := by
  have hunclosed : s.unclosed start = [] := by
    rw [unclosed, hs.closes_eq]
    rfl
  cases ts with
  | nil =>
      rw [cut, hunclosed]
      rfl
  | cons t ts =>
      have heof : t.isEof = true := h t rfl
      have hloose : s.isLoose t = false := by
        rw [hs.isLoose_eq, hplain.not_isSkipped heof, Bool.false_and]
      rw [cut, if_neg (by simp [hloose]), if_neg (by simp [hs.isEnd_eq]),
        if_neg (by simp [hs.isGate_eq]), if_pos heof, hunclosed]
      rfl

theorem Plain.skipBlank_segment {t : Token} (ts : List Token) (hloose : s.isLoose t = false) :
    Queue.skipBlank (Queue.before s.isStop (t :: ts)) = Queue.before s.isStop (t :: ts) := by
  rw [hs.isLoose_eq] at hloose
  cases hseparator : s.separator t with
  | true =>
      rw [Queue.before_cons_of_pos ts (hs.isStop_of_separator hseparator)]
      rfl
  | false =>
      rw [hseparator, Bool.not_false, Bool.and_true] at hloose
      cases hstop : s.isStop t with
      | true =>
          rw [Queue.before_cons_of_pos ts hstop]
          rfl
      | false =>
          rw [Queue.before_cons_of_neg ts hstop]
          exact Queue.skipBlank_cons_of_neg _ hloose

theorem Plain.standsAt_isStop {rest : List Token} (h : StandsAt s.isStop rest) :
    StandsAt Token.isEof rest ∨ exists u us, rest = u :: us ∧ s.separator u = true := by
  cases rest with
  | nil => exact Or.inl (standsAt_nil Token.isEof)
  | cons u us =>
      have hu := h u rfl
      rw [hs.isStop_eq, Bool.or_eq_true] at hu
      cases hu with
      | inl heof => exact Or.inl (standsAt_cons us heof)
      | inr hseparator => exact Or.inr ⟨u, us, rfl, hseparator⟩

theorem Plain.afterSegment_separator {ts us : List Token} {u : Token}
    (hrest : Queue.onward s.isStop ts = u :: us) (hu : s.separator u = true) :
    s.afterSegment ts = us := by
  have hloose : s.isLoose u = false := by
    rw [hs.isLoose_eq, hu, Bool.not_true, Bool.and_false]
  rw [afterSegment, hrest, skipLoose, List.dropWhile_cons_of_neg (by simp [hloose])]
  exact Queue.dropIf_cons_of_pos us hu

theorem Plain.afterSegment_end {ts : List Token}
    (hend : StandsAt Token.isEof (Queue.onward s.isStop ts))
    (hplain : Queue.EndsPlainly (Queue.onward s.isStop ts)) :
    s.afterSegment ts = Queue.onward s.isStop ts := by
  rw [afterSegment]
  cases hrest : Queue.onward s.isStop ts with
  | nil => rfl
  | cons u us =>
      rw [hrest] at hend hplain
      have heof : u.isEof = true := hend u rfl
      have hloose : s.isLoose u = false := by
        rw [hs.isLoose_eq, hplain.not_isSkipped heof, Bool.false_and]
      have hseparator : s.separator u = false := hs.separator_of_isEof u heof
      rw [skipLoose, List.dropWhile_cons_of_neg (by simp [hloose])]
      exact Queue.dropIf_cons_of_neg us hseparator

theorem Plain.occupied_segment {t : Token} (ts : List Token) (hloose : s.isLoose t = false)
    (hstop : s.isStop t = false) :
    occupied [Queue.before s.isStop (t :: ts)] = [Queue.before s.isStop (t :: ts)] := by
  have hseparator : s.separator t = false := by
    rw [hs.isStop_eq, Bool.or_eq_false_iff] at hstop
    exact hstop.2
  have hskip : Queue.isSkipped t = false := by
    rw [hs.isLoose_eq, hseparator, Bool.not_false, Bool.and_true] at hloose
    exact hloose
  rw [occupied, if_neg]
  rw [Queue.before_cons_of_neg ts hstop, List.all_cons, hskip]
  simp

theorem Plain.occupied_split_cons {t : Token} {ts : List Token} (hloose : s.isLoose t = false)
    (hplain : Queue.EndsPlainly (t :: ts)) (heof : t.isEof = false) :
    (occupied (s.split (t :: ts))).map Queue.skipBlank =
        Queue.before s.isStop (t :: ts) ::
          (occupied (s.split (s.afterSegment (t :: ts)))).map Queue.skipBlank ∧
      Queue.onward Token.isEof (s.afterSegment (t :: ts)) =
        Queue.onward Token.isEof (t :: ts) := by
  have hblank := hs.skipBlank_segment ts hloose
  have hseg : forall u, u ∈ Queue.before s.isStop (t :: ts) -> s.isStop u = false :=
    fun u hu => Queue.stop_eq_false_of_mem_before hu
  have happend := Queue.before_append_onward s.isStop (t :: ts)
  have honward := Queue.onward_append (Queue.onward s.isStop (t :: ts))
    (hs.not_isStop hseg).1
  rw [happend] at honward
  rcases hs.standsAt_isStop (Queue.standsAt_onward s.isStop (t :: ts)) with
    hend | ⟨u, us, hrest, hu⟩
  · have hafter := hs.afterSegment_end hend (hplain.congr honward.symm)
    have hsplit := hs.split_end hseg hend
    rw [happend] at hsplit
    -- The last segment gives an entry because it holds more than blanks: were its first token
    -- a stop, it would be the end of the text.
    have hstop : s.isStop t = false := by
      rw [Bool.eq_false_iff]
      intro hstop
      rw [Queue.onward_of_standsAt (standsAt_cons ts hstop)] at hend
      rw [hend t rfl] at heof
      cases heof
    have hnone : s.split (Queue.onward s.isStop (t :: ts)) = [[]] := by
      rw [split, Queue.before_of_standsAt hend]
      rfl
    rw [hafter, hsplit, hs.occupied_segment ts hloose hstop, List.map_singleton, hblank, hnone,
      honward]
    exact ⟨rfl, rfl⟩
  · have hafter := hs.afterSegment_separator hrest hu
    have hsplit := hs.split_separator hseg us hu
    rw [<- hrest, happend] at hsplit
    rw [hafter, hsplit, occupied_cons _ (split_ne_nil s us), List.map_cons, hblank,
      honward, hrest, Queue.onward_cons_of_neg us (hs.not_isEof hu)]
    exact ⟨rfl, rfl⟩

/-- The cuts leave the occupied segments behind the blanks in front of them, and end at the
first end of the text. -/
theorem Plain.cut_eq (start : Location) (ts : List Token) (hplain : Queue.EndsPlainly ts) :
    (s.cut start ts).parts =
      ((occupied (s.split ts)).map Queue.skipBlank, [], Queue.onward Token.isEof ts) := by
  induction ts using cut.induct s with
  | case1 => exact hs.cut_end start (standsAt_nil _) hplain
  | case2 t ts hloose ih =>
      have hskip : Queue.isSkipped t = true ∧ s.separator t = false := by
        rw [hs.isLoose_eq, Bool.and_eq_true, Bool.not_eq_true'] at hloose
        exact hloose
      have heof : t.isEof = false := by
        rw [Bool.eq_false_iff]
        intro heof
        rw [hplain.not_isSkipped heof] at hskip
        cases hskip.1
      have honward := Queue.onward_cons_of_neg ts heof
      rw [cut_loose start ts hloose, ih (hplain.congr honward.symm), honward]
      rw [split, split, Queue.before_cons_of_neg ts heof, List.splitOnP_cons_eq_if_modifyHead,
        if_neg (by simp [hskip.2]), occupied_modifyHead hskip.1]
  | case3 t ts _ hend => simp [hs.isEnd_eq] at hend
  | case4 t ts _ _ hgate => simp [hs.isGate_eq] at hgate
  | case5 t ts _ _ hgate => simp [hs.isGate_eq] at hgate
  | case6 t ts _ _ _ heof =>
      have hstands := standsAt_cons ts heof
      rw [hs.cut_end start hstands hplain, Queue.onward_of_standsAt hstands, split,
        Queue.before_of_standsAt hstands]
      rfl
  | case7 t ts hloose _ _ heof ih =>
      have heof : t.isEof = false := by simpa using heof
      have hloose : s.isLoose t = false := by simpa using hloose
      obtain ⟨hsplit, honward⟩ := hs.occupied_split_cons hloose hplain heof
      rw [cut_element ts hloose (hs.isEnd_eq t) (hs.isGate_eq t) heof, ih (hplain.congr honward),
        hsplit, honward]

end Plain

theorem Plain.segments_eq {s : ListShape} (hs : s.Plain) {input : List Token}
    (hinput : input ≠ []) (hplain : Queue.EndsPlainly input) :
    (s.segments input).parts =
      ((occupied (s.split input)).map Queue.skipBlank, [], Queue.onward Token.isEof input) := by
  cases input with
  | nil => exact absurd rfl hinput
  | cons t ts =>
      rw [segments, hs.opens_eq]
      exact hs.cut_eq t.location (t :: ts) hplain

end ListShape

namespace Strategy

/-!
## Entries
-/

/-- A composed strategy reads every segment on its own, whether or not another one failed. -/
theorem entries_eq_map {element : Strategy α} (helement : element.Composed) (shape : ListShape)
    (args : Args) (failed flag : Bool) (input : List Token) :
    (element.entries shape args failed input).parts =
      ((shape.segments input).parts.1.map (element.readSegment args flag),
        (shape.segments input).parts.2) := by
  have hsteady := helement.isSteady
  have hread : element.readSegment args flag = element.readSegment args false :=
    funext (readSegment_failed hsteady args flag)
  rw [hread]
  exact congrArg (·, (shape.segments input).parts.2)
    (readSegments_eq_map hsteady args failed (shape.segments input).value)

/-- A list without delimiters and gates is split at its separators and read segment by
segment up to the end of the text.  Two queues with as many segments have the same entry
wherever they have the same segment. -/
theorem entries_split {element : Strategy α} (helement : element.Composed) {shape : ListShape}
    (hshape : shape.Plain) {input : List Token} (hinput : input ≠ [])
    (hplain : Queue.EndsPlainly input) (args : Args) (failed flag : Bool) :
    (element.entries shape args failed input).parts =
        ((ListShape.occupied (shape.split input)).map
            (fun seg => element.readSegment args flag (Queue.skipBlank seg)),
          [], Queue.onward Token.isEof input) ∧
      forall other, other ≠ [] -> Queue.EndsPlainly other ->
        (shape.split other).length = (shape.split input).length ->
        forall i : Nat, (shape.split other)[i]? = (shape.split input)[i]? ->
          (element.entries shape args flag other).value[i]? =
            (element.entries shape args failed input).value[i]? := by
  have hentries : forall ts, ts ≠ [] -> Queue.EndsPlainly ts -> forall failed flag,
      (element.entries shape args failed ts).parts =
        ((ListShape.occupied (shape.split ts)).map
            (fun seg => element.readSegment args flag (Queue.skipBlank seg)),
          [], Queue.onward Token.isEof ts) := by
    intro ts hts hends failed flag
    rw [entries_eq_map helement shape args failed flag, hshape.segments_eq hts hends,
      List.map_map]
    rfl
  constructor
  · exact hentries input hinput hplain failed flag
  · intro other hother hends hlength i hi
    have hvalue := congrArg Prod.fst (hentries input hinput hplain failed flag)
    have hvalues := congrArg Prod.fst (hentries other hother hends flag flag)
    show (element.entries shape args flag other).parts.1[i]? =
      (element.entries shape args failed input).parts.1[i]?
    rw [hvalue, hvalues, List.getElem?_map, List.getElem?_map, ListShape.getElem?_occupied,
      ListShape.getElem?_occupied, hi, hlength]

def namePair : Spec :=
  .pair (.plain (.string (Scope.ofKind Css.ident) none) (.string (Scope.ofKind Css.ident) none)
    (some { test := Predicate.ofKind Css.colon }))

def commas : ListShape := { separator := Predicate.ofKind Css.comma }

theorem plain_commas : commas.Plain where
  opens_eq := rfl
  closes_eq := rfl
  gates_eq := rfl
  separator_of_isEof _ h := Predicate.ofKind_of_isEof (by decide) h

def nameTokens : List Token :=
  [.of Css.ident (.text "a"), .bare Css.colon, .of Css.ident (.text "b")]

def threeSegments (front : List Token) : List Token :=
  front ++ [.bare Css.comma, .bare Css.whitespace, .of Css.ident (.text "c"), .bare Css.comma,
    .bare Css.whitespace, .eof]

/-- The second entry is the same behind a pair and behind a segment that is no pair. -/
theorem entries_split_pairs :
    (namePair.strategy.entries commas {} false (threeSegments nameTokens)).parts =
        ([namePair.strategy.readSegment {} true nameTokens,
          namePair.strategy.readSegment {} true [.of Css.ident (.text "c")]], [], [.eof]) ∧
      (namePair.strategy.entries commas {} true (threeSegments [.bare Css.colon])).value[1]? =
        (namePair.strategy.entries commas {} false (threeSegments nameTokens)).value[1]? := by
  have hplain : forall front, Queue.onward Token.isEof (threeSegments front) = [.eof] ->
      Queue.EndsPlainly (threeSegments front) := by
    intro front honward t ht
    rw [honward] at ht
    cases ht
    rfl
  have hnames : threeSegments nameTokens ≠ [] := List.cons_ne_nil _ _
  have hcolon : threeSegments [.bare Css.colon] ≠ [] := List.cons_ne_nil _ _
  obtain ⟨hparts, hothers⟩ := entries_split namePair.composed_strategy plain_commas hnames
    (hplain nameTokens rfl) {} false true
  constructor
  · exact hparts
  · exact hothers _ hcolon (hplain [.bare Css.colon] rfl) rfl 1 rfl

/-- The end of the text, but of a kind that is a blank. -/
def blankEof : Token := .bare { Kind.eof with blank := true }

def blankEofFirst : List Token := [blankEof, .of Css.ident (.text "a"), .eof]

/-- An end of the text that is a blank is skipped, and the list goes on behind it. -/
theorem entries_split_blank_eof :
    namePair.strategy.Composed ∧ commas.Plain ∧ blankEofFirst ≠ [] ∧
      ListShape.occupied (commas.split blankEofFirst) = [] ∧
      Queue.onward Token.isEof blankEofFirst = blankEofFirst ∧
      (namePair.strategy.entries commas {} false blankEofFirst).parts =
        ([namePair.strategy.readSegment {} false [.of Css.ident (.text "a")]], [], [.eof]) := by
  refine ⟨namePair.composed_strategy, plain_commas, List.cons_ne_nil _ _, rfl, rfl, ?_⟩
  have hplain : Queue.EndsPlainly [.of Css.ident (.text "a"), .eof] := by
    intro t ht
    cases ht
    rfl
  have hsegments : (commas.segments blankEofFirst).parts =
      ([[.of Css.ident (.text "a")]], [], [.eof]) := by
    show (commas.cut blankEof.location blankEofFirst).parts = _
    rw [blankEofFirst, ListShape.cut_loose _ _ rfl]
    exact plain_commas.cut_eq _ _ hplain
  rw [entries_eq_map namePair.composed_strategy commas {} false false, hsegments]
  rfl

end Strategy
end StyleTokens
