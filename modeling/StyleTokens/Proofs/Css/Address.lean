import StyleTokens.Proofs.Css.Concat
import StyleTokens.Proofs.Css.ReadBack.Apart

/-!
# Addresses

An unquoted address ends behind the first parenthesis that no backslash escapes, whatever
stands before it, and at the end of the text if there is none.  The three readers that can
reach this end agree on it, so what follows a malformed address is read from the same place
as behind a well-formed one.  What is well-formed is a grammar of its own.
-/

namespace StyleTokens
namespace Text

theorem length_spanUpTo_le (p : Char -> Bool) (n : Nat) (cs : List Char) :
    (spanUpTo p n cs).1.length ≤ n := by
  induction n generalizing cs with
  | zero => exact Nat.le_refl 0
  | succ n ih =>
      cases cs with
      | nil => exact Nat.zero_le _
      | cons c cs =>
          rw [spanUpTo]
          split
          · exact Nat.succ_le_succ (ih cs)
          · exact Nat.zero_le _

theorem of_mem_spanUpTo {p : Char -> Bool} {n : Nat} {cs : List Char} {c : Char}
    (hc : c ∈ (spanUpTo p n cs).1) : p c = true := by
  induction n generalizing cs with
  | zero => cases hc
  | succ n ih =>
      cases cs with
      | nil => cases hc
      | cons d cs =>
          rw [spanUpTo] at hc
          split at hc
          · rename_i hd
            rcases List.mem_cons.mp hc with rfl | hc
            · exact hd
            · exact ih hc
          · cases hc

theorem spanUpTo_stops {p : Char -> Bool} {n : Nat} {cs : List Char}
    (h : (spanUpTo p n cs).1.length ≠ n) {c : Char}
    (hc : (spanUpTo p n cs).2.head? = some c) : p c = false := by
  induction n generalizing cs with
  | zero => exact absurd rfl h
  | succ n ih =>
      cases cs with
      | nil => cases hc
      | cons d cs =>
          rw [spanUpTo] at h hc
          split at h
          · rename_i hd
            rw [if_pos hd] at hc
            exact ih (fun hlen => h (congrArg Nat.succ hlen)) hc
          · rename_i hd
            rw [if_neg hd] at hc
            rw [← Option.some.inj hc]
            simpa using hd

theorem spanUpTo_of_length {p : Char -> Bool} {cs : List Char} (rest : List Char)
    (hall : forall c, c ∈ cs -> p c = true) : spanUpTo p cs.length (cs ++ rest) = (cs, rest) := by
  induction cs with
  | nil => rfl
  | cons c cs ih =>
      have hc : p c = true := hall c List.mem_cons_self
      have hspan := ih fun d hd => hall d (List.mem_cons_of_mem c hd)
      simp [spanUpTo, hc, hspan]

end Text

namespace Css

/-!
## Where an address ends
-/

/-- Split a text at the first closing parenthesis that is not escaped, if there is one.  A
backslash that is not escaped itself escapes the character behind it, unless this is a line
feed. -/
def splitAtClose (escaped : Bool) (input : List Char) : Option (List Char × List Char) :=
  match input with
  | [] => none
  | c :: cs =>
      if !escaped && c == ')' then some ([], cs)
      else
        (splitAtClose (!escaped && startsEscape (c :: cs)) cs).map fun found =>
          (c :: found.1, found.2)

/-- The text that an address takes, with its closing parenthesis, and what follows it. -/
def addressExtent (input : List Char) : List Char × List Char :=
  match splitAtClose false input with
  | some (content, rest) => (content ++ [')'], rest)
  | none => (input, [])

theorem splitAtClose_cons (escaped : Bool) (c : Char) (cs : List Char) :
    splitAtClose escaped (c :: cs) =
      if !escaped && c == ')' then some ([], cs)
      else
        (splitAtClose (!escaped && startsEscape (c :: cs)) cs).map fun found =>
          (c :: found.1, found.2) :=
  splitAtClose.eq_2 escaped c cs

theorem splitAtClose_close (rest : List Char) :
    splitAtClose false (')' :: rest) = some ([], rest) := by
  rw [splitAtClose_cons]
  rfl

theorem splitAtClose_escaped (c : Char) (cs : List Char) :
    splitAtClose true (c :: cs) =
      (splitAtClose false cs).map fun found => (c :: found.1, found.2) := by
  rw [splitAtClose_cons]
  rfl

theorem splitAtClose_plain {c : Char} (cs : List Char) (hclose : c ≠ ')')
    (hescape : startsEscape (c :: cs) = false) :
    splitAtClose false (c :: cs) =
      (splitAtClose false cs).map fun found => (c :: found.1, found.2) := by
  rw [splitAtClose_cons, hescape, if_neg (by simp [hclose])]
  rfl

theorem eq_append_of_splitAtClose {escaped : Bool} {cs content rest : List Char}
    (h : splitAtClose escaped cs = some (content, rest)) : cs = content ++ ')' :: rest := by
  induction cs generalizing escaped content with
  | nil => cases h
  | cons c cs ih =>
      rw [splitAtClose_cons] at h
      split at h
      · rename_i hclose
        obtain ⟨rfl, rfl⟩ := Prod.mk.inj (Option.some.inj h)
        have hc : c = ')' := by
          simp only [Bool.and_eq_true, beq_iff_eq] at hclose
          exact hclose.2
        rw [hc]
        rfl
      · obtain ⟨⟨content', rest'⟩, hfound, hpair⟩ := Option.map_eq_some_iff.mp h
        obtain ⟨rfl, rfl⟩ := Prod.mk.inj hpair
        rw [ih hfound]
        rfl

theorem addressExtent_append (cs : List Char) :
    (addressExtent cs).1 ++ (addressExtent cs).2 = cs := by
  unfold addressExtent
  split
  · rename_i content rest hsplit
    rw [eq_append_of_splitAtClose hsplit, List.append_assoc]
    rfl
  · exact List.append_nil cs

/-!
## Runs that end no address
-/

/-- The first closing parenthesis stands behind the run, whatever follows it. -/
def PassesOver (front : List Char) : Prop :=
  forall rest, splitAtClose false (front ++ rest) =
    (splitAtClose false rest).map fun found => (front ++ found.1, found.2)

theorem passesOver_nil : PassesOver [] := by
  intro rest
  cases h : splitAtClose false rest with
  | none => exact h
  | some found => exact h

theorem PassesOver.append {a b : List Char} (ha : PassesOver a) (hb : PassesOver b) :
    PassesOver (a ++ b) := by
  intro rest
  rw [List.append_assoc, ha, hb, Option.map_map]
  simp [Function.comp_def]

theorem PassesOver.cons {c : Char} {cs : List Char} (hclose : c ≠ ')') (hback : c ≠ '\\')
    (h : PassesOver cs) : PassesOver (c :: cs) := by
  intro rest
  rw [List.cons_append, splitAtClose_plain _ hclose (startsEscape_of_ne hback _), h,
    Option.map_map]
  rfl

theorem PassesOver.cons_escape {c : Char} {cs : List Char} (hline : c ≠ '\n')
    (h : PassesOver cs) : PassesOver ('\\' :: c :: cs) := by
  intro rest
  have hescape : startsEscape ('\\' :: c :: (cs ++ rest)) = true :=
    startsEscape_backslash hline _
  rw [List.cons_append, List.cons_append, splitAtClose_cons, hescape]
  show (splitAtClose true (c :: (cs ++ rest))).map _ = _
  rw [splitAtClose_escaped, h, Option.map_map, Option.map_map]
  rfl

theorem passesOver_of_forall {p : Char -> Bool} (hclose : p ')' = false) (hback : p '\\' = false)
    {cs : List Char} (h : forall c, c ∈ cs -> p c = true) : PassesOver cs := by
  induction cs with
  | nil => exact passesOver_nil
  | cons c cs ih =>
      have hc : p c = true := h c List.mem_cons_self
      apply PassesOver.cons
      · rintro rfl
        rw [hclose] at hc
        cases hc
      · rintro rfl
        rw [hback] at hc
        cases hc
      · exact ih fun d hd => h d (List.mem_cons_of_mem c hd)

theorem passesOver_of_isBlank {cs : List Char} (h : forall c, c ∈ cs -> isBlank c = true) :
    PassesOver cs :=
  passesOver_of_forall (by decide) (by decide) h

theorem PassesOver.extent {front : List Char} (h : PassesOver front) (rest : List Char) :
    (addressExtent (front ++ rest)).2 = (addressExtent rest).2 := by
  unfold addressExtent
  rw [h rest]
  cases splitAtClose false rest with
  | none => rfl
  | some found => rfl

/-!
## Escapes
-/

/-- What stands behind the backslash of an escape in front of a text, and the character that
it gives: one that is no hexadecimal digit itself, or up to six digits, as many as there are,
with the blank behind them if there is one. -/
inductive EscapeText : List Char -> Char -> List Char -> Prop where
  | literal {c : Char} {next : List Char} (hhex : Text.isHexDigit c = false) (hline : c ≠ '\n') :
      EscapeText [c] c next
  | digits {ds next : List Char} (hne : ds ≠ []) (hlen : ds.length ≤ 6)
      (hall : forall d, d ∈ ds -> Text.isHexDigit d = true)
      (hmost : ds.length = 6 ∨ forall c, next.head? = some c -> Text.isHexDigit c = false)
      (hblank : forall c, next.head? = some c -> isBlank c = false) :
      EscapeText ds (numbered (Text.hexNumber ds)) next
  | spaced {ds next : List Char} {blank : Char} (hne : ds ≠ []) (hlen : ds.length ≤ 6)
      (hall : forall d, d ∈ ds -> Text.isHexDigit d = true) (hblank : isBlank blank = true) :
      EscapeText (ds ++ [blank]) (numbered (Text.hexNumber ds)) next

theorem not_isHexDigit_of_isBlank {c : Char} (h : isBlank c = true) :
    Text.isHexDigit c = false := by
  rcases isBlank_cases h with rfl | rfl | rfl
  · decide
  · decide
  · decide

theorem passesOver_digits {ds cs : List Char} (hne : ds ≠ [])
    (hall : forall d, d ∈ ds -> Text.isHexDigit d = true) (h : PassesOver cs) :
    PassesOver ('\\' :: (ds ++ cs)) := by
  cases ds with
  | nil => exact absurd rfl hne
  | cons d ds =>
      have hline : d ≠ '\n' := by
        rintro rfl
        exact absurd (hall '\n' List.mem_cons_self) (by decide)
      have hdigits : PassesOver ds :=
        passesOver_of_forall (p := Text.isHexDigit) (by decide) (by decide)
          fun e he => hall e (List.mem_cons_of_mem d he)
      exact (hdigits.append h).cons_escape hline

theorem EscapeText.passesOver {body next : List Char} {c : Char} (h : EscapeText body c next) :
    PassesOver ('\\' :: body) := by
  cases h with
  | literal hhex hline => exact passesOver_nil.cons_escape hline
  | digits hne hlen hall hmost hblank =>
      have hpasses := passesOver_digits hne hall passesOver_nil
      rwa [List.append_nil] at hpasses
  | @spaced ds next blank hne hlen hall hblank =>
      apply passesOver_digits hne hall
      apply passesOver_of_isBlank
      intro d hd
      rw [List.mem_singleton.mp hd]
      exact hblank

theorem EscapeText.startsEscape {body next : List Char} {c : Char} (h : EscapeText body c next)
    (rest : List Char) : startsEscape ('\\' :: (body ++ rest)) = true := by
  have hdigits : forall ds : List Char, ds ≠ [] -> (forall d, d ∈ ds -> Text.isHexDigit d = true) ->
      forall rest, Css.startsEscape ('\\' :: (ds ++ rest)) = true := by
    intro ds hne hall rest
    cases ds with
    | nil => exact absurd rfl hne
    | cons d ds =>
        apply startsEscape_backslash
        rintro rfl
        exact absurd (hall '\n' List.mem_cons_self) (by decide)
  cases h with
  | literal hhex hline => exact startsEscape_backslash hline rest
  | digits hne hlen hall hmost hblank => exact hdigits body hne hall rest
  | @spaced ds next blank hne hlen hall hblank =>
      rw [List.append_assoc]
      exact hdigits ds hne hall _

theorem escapeText_readEscape {cs : List Char} (hne : cs ≠ [])
    (hescape : startsEscape ('\\' :: cs) = true) :
    exists body, cs = body ++ (readEscape cs).2 ∧
      EscapeText body (readEscape cs).1 (readEscape cs).2 := by
  cases cs with
  | nil => exact absurd rfl hne
  | cons c cs =>
      cases hhex : Text.isHexDigit c with
      | false =>
          rw [readEscape_plain hhex]
          refine ⟨[c], rfl, .literal hhex ?_⟩
          rintro rfl
          cases hescape
      | true =>
          have hsplit := Text.spanUpTo_append Text.isHexDigit 5 cs
          have hlen := Text.length_spanUpTo_le Text.isHexDigit 5 cs
          have hstops := @Text.spanUpTo_stops Text.isHexDigit 5 cs
          have hall := @Text.of_mem_spanUpTo Text.isHexDigit 5 cs
          rw [readEscape, if_pos hhex]
          generalize Text.spanUpTo Text.isHexDigit 5 cs = found at hsplit hlen hstops hall
          obtain ⟨ds, rest⟩ := found
          have hdigits : forall d, d ∈ c :: ds -> Text.isHexDigit d = true :=
            List.forall_mem_cons.mpr ⟨hhex, fun d hd => hall hd⟩
          have hshort : (c :: ds).length ≤ 6 := Nat.succ_le_succ hlen
          have hfive : (c :: ds).length = 6 ∨
              forall d, rest.head? = some d -> Text.isHexDigit d = false := by
            by_cases hfull : ds.length = 5
            · exact Or.inl (congrArg Nat.succ hfull)
            · exact Or.inr fun d hd => hstops hfull hd
          cases rest with
          | nil =>
              refine ⟨c :: ds, ?_, ?_⟩
              · rw [← hsplit]
                rfl
              · exact .digits (List.cons_ne_nil c ds) hshort hdigits hfive (by simp [dropBlank])
          | cons b rest =>
              cases hb : isBlank b with
              | true =>
                  have hdrop : dropBlank (b :: rest) = rest := by rw [dropBlank, if_pos hb]
                  refine ⟨c :: ds ++ [b], ?_, ?_⟩
                  · simp only [hdrop]
                    rw [← hsplit]
                    simp
                  · exact .spaced (List.cons_ne_nil c ds) hshort hdigits hb
              | false =>
                  have hdrop : dropBlank (b :: rest) = b :: rest := by
                    rw [dropBlank, if_neg (by simp [hb])]
                  refine ⟨c :: ds, ?_, ?_⟩
                  · simp only [hdrop]
                    rw [← hsplit]
                    rfl
                  · simp only [hdrop]
                    refine .digits (List.cons_ne_nil c ds) hshort hdigits hfive ?_
                    intro d hd
                    rw [← Option.some.inj hd]
                    exact hb

theorem readEscape_digits {ds rest : List Char} (hne : ds ≠ []) (hlen : ds.length ≤ 6)
    (hall : forall d, d ∈ ds -> Text.isHexDigit d = true)
    (hmost : ds.length = 6 ∨ forall c, rest.head? = some c -> Text.isHexDigit c = false) :
    readEscape (ds ++ rest) = (numbered (Text.hexNumber ds), dropBlank rest) := by
  cases ds with
  | nil => exact absurd rfl hne
  | cons d ds =>
      have htail : forall e, e ∈ ds -> Text.isHexDigit e = true :=
        fun e he => hall e (List.mem_cons_of_mem d he)
      have hspan : Text.spanUpTo Text.isHexDigit 5 (ds ++ rest) = (ds, rest) := by
        rcases hmost with hfull | hends
        · have hfive : ds.length = 5 := Nat.succ.inj hfull
          rw [← hfive]
          exact Text.spanUpTo_of_length rest htail
        · exact Text.spanUpTo_of_all (Nat.le_of_succ_le_succ hlen) htail hends
      rw [List.cons_append, readEscape, if_pos (hall d List.mem_cons_self)]
      simp only [hspan]

/-!
## The three readers
-/

theorem extent_of_escape {cs : List Char} (hescape : startsEscape ('\\' :: cs) = true) :
    (addressExtent ('\\' :: cs)).2 = (addressExtent (readEscape cs).2).2 := by
  by_cases hne : cs = []
  · subst hne
    rfl
  · obtain ⟨body, hsplit, htext⟩ := escapeText_readEscape hne hescape
    have hextent := htext.passesOver.extent (readEscape cs).2
    rwa [List.cons_append, ← hsplit] at hextent

theorem extent_of_close (cs : List Char) : (addressExtent (')' :: cs)).2 = cs := by
  rw [addressExtent, splitAtClose_close]

theorem extent_of_plain {c : Char} {cs : List Char} (hclose : c ≠ ')')
    (hescape : startsEscape (c :: cs) = false) :
    (addressExtent (c :: cs)).2 = (addressExtent cs).2 := by
  unfold addressExtent
  rw [splitAtClose_plain cs hclose hescape]
  cases splitAtClose false cs with
  | none => rfl
  | some found => rfl

theorem skipAddress_eq_extent (cs : List Char) : skipAddress cs = (addressExtent cs).2 := by
  fun_induction skipAddress cs with
  | case1 => rfl
  | case2 cs => rw [extent_of_close]
  | case3 c cs hclose hescape ih =>
      obtain rfl : c = '\\' := startsEscape_head hescape
      rw [extent_of_escape hescape]
      exact ih
  | case4 c cs hclose hescape ih =>
      rw [extent_of_plain hclose (by simpa using hescape)]
      exact ih

theorem ne_close_of_isBlank {c : Char} (h : isBlank c = true) : c ≠ ')' := by
  rintro rfl
  cases h

theorem ne_backslash_of_isBlank {c : Char} (h : isBlank c = true) : c ≠ '\\' := by
  rintro rfl
  cases h

theorem extent_of_blanks {c : Char} {cs : List Char} (h : isBlank c = true) :
    (addressExtent (c :: cs)).2 = (addressExtent (cs.dropWhile isBlank)).2 := by
  rw [extent_of_plain (ne_close_of_isBlank h) (startsEscape_of_ne (ne_backslash_of_isBlank h) cs)]
  have hblank : PassesOver (cs.takeWhile isBlank) :=
    passesOver_of_isBlank fun d hd => List.mem_takeWhile_imp hd
  have hextent := hblank.extent (cs.dropWhile isBlank)
  rwa [List.takeWhile_append_dropWhile] at hextent

theorem readAddress_rest (cs : List Char) : (readAddress cs).rest = (addressExtent cs).2 := by
  fun_induction readAddress cs with
  | case1 => rfl
  | case2 cs => rw [extent_of_close]
  | case3 c cs hclose hblank hdrop =>
      rw [extent_of_blanks hblank, hdrop]
      rfl
  | case4 c cs hclose hblank ds hdrop => rw [extent_of_blanks hblank, hdrop, extent_of_close]
  | case5 c cs hclose hblank d ds hdrop hd =>
      rw [extent_of_blanks hblank, hdrop]
      exact skipAddress_eq_extent (d :: ds)
  | case6 c cs hclose hblank hforbidden =>
      have hback : c ≠ '\\' := by
        rintro rfl
        cases hforbidden
      rw [extent_of_plain hclose (startsEscape_of_ne hback cs)]
      exact skipAddress_eq_extent cs
  | case7 cs hclose hblank hforbidden hescape ih =>
      rw [extent_of_escape hescape]
      exact ih
  | case8 cs hclose hblank hforbidden hescape =>
      rw [extent_of_plain hclose (by simpa using hescape)]
      exact skipAddress_eq_extent cs
  | case9 c cs hclose hblank hforbidden hback ih =>
      rw [extent_of_plain hclose (startsEscape_of_ne hback cs)]
      exact ih

/-!
## Well-formed addresses
-/

/-- The middle of an address with its decoded value: escapes, and characters that are neither
blank nor forbidden nor a backslash. -/
inductive AddressText : List Char -> List Char -> Prop where
  | nil : AddressText [] []
  | plain {c : Char} {cs value : List Char} (hblank : isBlank c = false)
      (hforbidden : isForbidden c = false) (hback : c ≠ '\\') (h : AddressText cs value) :
      AddressText (c :: cs) (c :: value)
  | escape {body cs value : List Char} {c : Char} (hescape : EscapeText body c cs)
      (h : AddressText cs value) : AddressText ('\\' :: (body ++ cs)) (c :: value)

def IsAddress (content value : List Char) : Prop :=
  exists lead middle trail, content = lead ++ (middle ++ trail) ∧
    (forall c, c ∈ lead -> isBlank c = true) ∧ AddressText middle value ∧
    forall c, c ∈ trail -> isBlank c = true

theorem AddressText.not_isBlank_of_head? {cs value : List Char} (h : AddressText cs value)
    {c : Char} (hc : cs.head? = some c) : isBlank c = false := by
  cases h with
  | nil => cases hc
  | plain hblank hforbidden hback h =>
      rw [← Option.some.inj hc]
      exact hblank
  | escape hescape h =>
      rw [← Option.some.inj hc]
      rfl

theorem readAddress_of_blanks {trail : List Char} (rest : List Char)
    (h : forall c, c ∈ trail -> isBlank c = true) :
    readAddress (trail ++ ')' :: rest) = ⟨[], none, rest⟩ := by
  cases trail with
  | nil => exact readAddress_of_close rest
  | cons b trail =>
      have hb : isBlank b = true := h b List.mem_cons_self
      have hdrop : (trail ++ ')' :: rest).dropWhile isBlank = ')' :: rest := by
        rw [List.dropWhile_append_of_pos fun c hc => h c (List.mem_cons_of_mem b hc)]
        rfl
      rw [List.cons_append, readAddress.eq_2, if_neg (ne_close_of_isBlank hb), if_pos hb]
      simp only [hdrop, if_true]

theorem not_isHexDigit_of_end {trail rest : List Char}
    (htrail : forall c, c ∈ trail -> isBlank c = true) {c : Char}
    (hc : (trail ++ ')' :: rest).head? = some c) : Text.isHexDigit c = false := by
  cases trail with
  | nil =>
      rw [← Option.some.inj hc]
      rfl
  | cons b trail =>
      rw [← Option.some.inj hc]
      exact not_isHexDigit_of_isBlank (htrail b List.mem_cons_self)

theorem dropBlank_of_head? {cs : List Char}
    (h : forall c, cs.head? = some c -> isBlank c = false) : dropBlank cs = cs := by
  cases cs with
  | nil => rfl
  | cons c cs => rw [dropBlank, if_neg (by simp [h c rfl])]

/-- An escape before the end of an address is read.  It owns a blank behind the middle if it
ends it. -/
theorem EscapeText.readEscape {body cs trail : List Char} {c : Char}
    (h : EscapeText body c cs) (rest : List Char)
    (htrail : forall c, c ∈ trail -> isBlank c = true) :
    exists trail', (forall c, c ∈ trail' -> isBlank c = true) ∧
      readEscape (body ++ (cs ++ (trail ++ ')' :: rest))) =
        (c, cs ++ (trail' ++ ')' :: rest)) := by
  cases h with
  | literal hhex hline => exact ⟨trail, htrail, readEscape_plain hhex _⟩
  | @spaced ds next blank hne hlen hall hblank =>
      refine ⟨trail, htrail, ?_⟩
      rw [List.append_assoc, List.singleton_append, readEscape_digits hne hlen hall ?_, dropBlank,
        if_pos hblank]
      refine Or.inr fun d hd => ?_
      rw [← Option.some.inj hd]
      exact not_isHexDigit_of_isBlank hblank
  | digits hne hlen hall hmost hblank =>
      have hends : body.length = 6 ∨ forall d, (cs ++ (trail ++ ')' :: rest)).head? = some d ->
          Text.isHexDigit d = false := by
        refine hmost.imp_right fun hnext d hd => ?_
        cases cs with
        | nil => exact not_isHexDigit_of_end htrail hd
        | cons e cs => exact hnext d hd
      rw [readEscape_digits hne hlen hall hends]
      cases cs with
      | cons e cs =>
          refine ⟨trail, htrail, ?_⟩
          rw [dropBlank_of_head?]
          exact fun d hd => hblank d hd
      | nil =>
          cases trail with
          | nil => exact ⟨[], htrail, rfl⟩
          | cons b trail =>
              refine ⟨trail, fun d hd => htrail d (List.mem_cons_of_mem b hd), ?_⟩
              show (_, dropBlank (b :: (trail ++ ')' :: rest))) = _
              rw [dropBlank, if_pos (htrail b List.mem_cons_self)]
              rfl

theorem AddressText.readAddress {middle value trail : List Char} (h : AddressText middle value)
    (hinside : splitAtClose false middle = none) (rest : List Char)
    (htrail : forall c, c ∈ trail -> isBlank c = true) :
    readAddress (middle ++ (trail ++ ')' :: rest)) = ⟨value, none, rest⟩ := by
  induction h generalizing trail with
  | nil => exact readAddress_of_blanks rest htrail
  | @plain c cs value hblank hforbidden hback _ ih =>
      have hclose : c ≠ ')' := by
        rintro rfl
        rw [splitAtClose_close] at hinside
        cases hinside
      rw [splitAtClose_plain cs hclose (startsEscape_of_ne hback cs), Option.map_eq_none_iff]
        at hinside
      rw [List.cons_append, readAddress_of_plain _ hclose hblank hforbidden hback,
        ih hinside htrail]
      rfl
  | @escape body cs value c hescape _ ih =>
      have hpasses := hescape.passesOver cs
      rw [List.cons_append, hinside] at hpasses
      have hcs : splitAtClose false cs = none := Option.map_eq_none_iff.mp hpasses.symm
      obtain ⟨trail', htrail', hread⟩ := hescape.readEscape rest htrail
      rw [List.cons_append, List.append_assoc,
        readAddress_of_escape (hescape.startsEscape _) hread, ih hcs htrail']
      rfl

theorem EscapeText.of_append {body front rest : List Char} {c : Char}
    (h : EscapeText body c (front ++ rest)) : EscapeText body c front := by
  have hhead : forall d, front.head? = some d -> (front ++ rest).head? = some d := by
    intro d hd
    rw [List.head?_append, hd]
    rfl
  cases h with
  | literal hhex hline => exact .literal hhex hline
  | digits hne hlen hall hmost hblank =>
      refine .digits hne hlen hall (hmost.imp_right fun hends d hd => ?_) fun d hd => ?_
      · exact hends d (hhead d hd)
      · exact hblank d (hhead d hd)
  | spaced hne hlen hall hblank => exact .spaced hne hlen hall hblank

theorem push_eq {c : Char} {e : Enclosed} {value rest : List Char}
    (h : e.push c = ⟨value, none, rest⟩) :
    exists value', e = ⟨value', none, rest⟩ ∧ value = c :: value' := by
  rcases e with ⟨value', error, rest'⟩
  obtain ⟨rfl, rfl, rfl⟩ := Enclosed.mk.inj h
  exact ⟨value', rfl, rfl⟩

theorem addressText_of_readAddress {cs value rest : List Char}
    (h : Css.readAddress cs = ⟨value, none, rest⟩) :
    exists middle trail, cs = middle ++ (trail ++ ')' :: rest) ∧ AddressText middle value ∧
      PassesOver middle ∧ forall c, c ∈ trail -> isBlank c = true := by
  fun_induction Css.readAddress cs generalizing value with
  | case1 => cases h
  | case2 cs =>
      obtain ⟨rfl, -, rfl⟩ := Enclosed.mk.inj h
      exact ⟨[], [], rfl, .nil, passesOver_nil, List.forall_mem_nil _⟩
  | case3 => cases h
  | case4 c cs hclose hblank ds hdrop =>
      obtain ⟨rfl, -, rfl⟩ := Enclosed.mk.inj h
      refine ⟨[], c :: cs.takeWhile isBlank, ?_, .nil, passesOver_nil, ?_⟩
      · rw [← hdrop]
        exact congrArg (List.cons c) List.takeWhile_append_dropWhile.symm
      · exact List.forall_mem_cons.mpr ⟨hblank, fun d hd => List.mem_takeWhile_imp hd⟩
  | case5 => cases h
  | case6 => cases h
  | case7 cs hclose hblank hforbidden hescape ih =>
      obtain ⟨value', hread, rfl⟩ := push_eq h
      obtain ⟨middle, trail, hsplit, hmiddle, hpasses, htrail⟩ := ih hread
      have hne : cs ≠ [] := by
        rintro rfl
        rw [Css.readEscape, Css.readAddress] at hread
        cases hread
      obtain ⟨body, hcs, hbody⟩ := escapeText_readEscape hne hescape
      rw [hsplit] at hcs hbody
      refine ⟨'\\' :: (body ++ middle), trail, ?_, .escape hbody.of_append hmiddle, ?_, htrail⟩
      · rw [hcs]
        simp
      · exact hbody.passesOver.append hpasses
  | case8 => cases h
  | case9 c cs hclose hblank hforbidden hback ih =>
      obtain ⟨value', hread, rfl⟩ := push_eq h
      obtain ⟨middle, trail, hsplit, hmiddle, hpasses, htrail⟩ := ih hread
      refine ⟨c :: middle, trail, ?_, ?_, hpasses.cons hclose hback, htrail⟩
      · rw [hsplit]
        rfl
      · exact .plain (by simpa using hblank) (by simpa using hforbidden) hback hmiddle

theorem splitAtClose_front {escaped : Bool} {front rest : List Char}
    (h : forall found, splitAtClose escaped (front ++ rest) = some found ->
      front.length ≤ found.1.length) : splitAtClose escaped front = none := by
  induction front generalizing escaped with
  | nil => rfl
  | cons c front ih =>
      rw [List.cons_append, splitAtClose_cons] at h
      rw [splitAtClose_cons]
      split
      · rename_i hclose
        rw [if_pos hclose] at h
        exact absurd (h _ rfl) (Nat.not_succ_le_zero _)
      · rename_i hclose
        rw [if_neg hclose] at h
        rw [Option.map_eq_none_iff]
        cases front with
        | nil => rfl
        | cons d front =>
            apply ih
            intro found hfound
            have hlonger := h (c :: found.1, found.2) <| by
              rw [List.cons_append, startsEscape_cons_cons c d _ front, ← List.cons_append, hfound]
              rfl
            exact Nat.le_of_succ_le_succ hlonger

/-!
## Addresses in a text
-/

theorem readAddress_of_isAddress {text content rest value : List Char}
    (hsplit : splitAtClose false text = some (content, rest)) (h : IsAddress content value) :
    Css.readAddress (text.dropWhile isBlank) = ⟨value, none, rest⟩ := by
  obtain ⟨lead, middle, trail, rfl, hlead, hmiddle, htrail⟩ := h
  have htext : text = lead ++ (middle ++ (trail ++ ')' :: rest)) := by
    rw [eq_append_of_splitAtClose hsplit]
    simp
  have hinside : splitAtClose false middle = none := by
    refine splitAtClose_front fun found (hfound : splitAtClose false
      (middle ++ (trail ++ ')' :: rest)) = some found) => ?_
    have hpasses := passesOver_of_isBlank hlead (middle ++ (trail ++ ')' :: rest))
    rw [← htext, hsplit, hfound] at hpasses
    have hfront : lead ++ (middle ++ trail) = lead ++ found.1 :=
      congrArg Prod.fst (Option.some.inj hpasses)
    rw [← List.append_cancel_left hfront, List.length_append]
    exact Nat.le_add_right _ _
  rw [htext, List.dropWhile_append_of_pos hlead]
  cases middle with
  | nil =>
      cases hmiddle
      rw [List.nil_append, List.dropWhile_append_of_pos htrail]
      exact readAddress_of_close rest
  | cons c middle =>
      have hc : isBlank c = false := hmiddle.not_isBlank_of_head? rfl
      rw [List.cons_append, List.dropWhile_cons_of_neg (by simp [hc]), ← List.cons_append]
      exact hmiddle.readAddress hinside rest htrail

theorem isAddress_of_readAddress {text value rest : List Char}
    (h : Css.readAddress (text.dropWhile isBlank) = ⟨value, none, rest⟩) :
    exists content, splitAtClose false text = some (content, rest) ∧ IsAddress content value := by
  obtain ⟨middle, trail, hsplit, hmiddle, hpasses, htrail⟩ := addressText_of_readAddress h
  have hlead : forall c, c ∈ text.takeWhile isBlank -> isBlank c = true :=
    fun c hc => List.mem_takeWhile_imp hc
  have htext : text = (text.takeWhile isBlank ++ (middle ++ trail)) ++ ')' :: rest := by
    rw [List.append_assoc, List.append_assoc, ← hsplit, List.takeWhile_append_dropWhile]
  refine ⟨text.takeWhile isBlank ++ (middle ++ trail), ?_, _, middle, trail, rfl, hlead, hmiddle,
    htrail⟩
  have hall : PassesOver (text.takeWhile isBlank ++ (middle ++ trail)) :=
    (passesOver_of_isBlank hlead).append (hpasses.append (passesOver_of_isBlank htrail))
  have hfound := hall (')' :: rest)
  rw [← htext, splitAtClose_close] at hfound
  rw [hfound]
  simp

theorem addressToken_rest (text : List Char) :
    (addressToken text).2 = (addressExtent text).2 := by
  have hblank : PassesOver (text.takeWhile isBlank) :=
    passesOver_of_isBlank fun c hc => List.mem_takeWhile_imp hc
  have hextent := hblank.extent (text.dropWhile isBlank)
  rw [List.takeWhile_append_dropWhile] at hextent
  rw [hextent, ← readAddress_rest]
  simp only [addressToken]
  split
  · rfl
  · rfl

theorem addressToken_of_isAddress {text content rest value : List Char}
    (hsplit : splitAtClose false text = some (content, rest)) (h : IsAddress content value) :
    (addressToken text).1 = .ofText url value := by
  simp only [addressToken, readAddress_of_isAddress hsplit h]

/-- What is read of an address is one of two kinds, and the better one only if it is well
formed. -/
theorem addressToken_cases (text : List Char) :
    (addressToken text).1.kind = badUrl ∨
      ((addressToken text).1.kind = url ∧
        exists content rest value, splitAtClose false text = some (content, rest) ∧
          IsAddress content value) := by
  rcases hread : Css.readAddress (text.dropWhile isBlank) with ⟨value, error, rest⟩
  cases error with
  | some e =>
      left
      simp only [addressToken, hread]
      rfl
  | none =>
      right
      obtain ⟨content, hsplit, haddress⟩ := isAddress_of_readAddress hread
      constructor
      · rw [addressToken_of_isAddress hsplit haddress]
        rfl
      · exact ⟨content, rest, value, hsplit, haddress⟩

theorem isAlpha_of_sameFolded {name : List Char}
    (h : Text.sameFolded (String.ofList name) "url" = true) :
    name ≠ [] ∧ forall c, c ∈ name -> c.isAlpha = true := by
  have hlower : name.map Char.toLower = ['u', 'r', 'l'] := by
    have htexts : Text.lower (String.ofList name) = Text.lower "url" := beq_iff_eq.mp h
    have hlists := congrArg String.toList htexts
    simpa [Text.lower] using hlists
  constructor
  · rintro rfl
    cases hlower
  · intro c hc
    have hmem : c.toLower ∈ ['u', 'r', 'l'] := by
      rw [← hlower]
      exact List.mem_map_of_mem hc
    have hletters : ['u', 'r', 'l'].all Char.isAlpha = true := by decide
    rw [← Text.isAlpha_toLower]
    exact List.all_eq_true.mp hletters _ hmem

theorem isNameStart_of_isAlpha {c : Char} (h : c.isAlpha = true) : isNameStart c = true := by
  simp [isNameStart, h]

theorem pass_of_address (o : Options) {c : Char} {name rest : List Char}
    (hname : Text.sameFolded (String.ofList (c :: name)) "url" = true)
    (hquote : startsQuote (rest.dropWhile isBlank) = false) :
    (dialect.pass o c (name ++ '(' :: rest)).parts =
      ([(addressToken rest).1], (addressToken rest).2) := by
  have hletters := (isAlpha_of_sameFolded hname).2
  have hchars : forall d, d ∈ c :: name -> isNameChar d = true := fun d hd =>
    isNameChar_of_isNameStart (isNameStart_of_isAlpha (hletters d hd))
  have hread : readName (c :: (name ++ '(' :: rest)) = (c :: name, '(' :: rest) := by
    rw [← List.cons_append, readName_of_plain hchars, readName_of_end rest (by decide) (by decide),
      List.append_nil]
  have hstart : isNameStart c = true := isNameStart_of_isAlpha (hletters c List.mem_cons_self)
  rw [pass_of_claims (s := nameScanner) (by simp [scanners]) o hstart]
  have hlike : readNameLike (c :: (name ++ '(' :: rest)) = addressToken rest := by
    rw [readNameLike_of_open hread, hname, hquote]
    rfl
  exact congrArg (fun found => ([found.1], found.2)) hlike

/-- A text that starts with the name of an address, a parenthesis and no quote is cut into a
first token of one of two kinds and the tokens behind it.  The first one ends behind the first
closing parenthesis that is not escaped, or at the end of the text, and it is an address, with
its decoded value, exactly if there is such a parenthesis and a well-formed address before
it. -/
theorem tokenize_address (o : Options) {s : String} {name raw : List Char}
    (hs : s.toList = name ++ '(' :: raw)
    (hname : Text.sameFolded (String.ofList name) "url" = true)
    (hquote : startsQuote ((prepare raw).dropWhile isBlank) = false) :
    exists t : Token,
      tokenize o s = t.placed .start ::
        dialect.tokensFrom o (Location.start.past (name ++ '(' :: (addressExtent (prepare raw)).1))
          (addressExtent (prepare raw)).2 ∧
      (t.kind = url ∨ t.kind = badUrl) ∧
      (t.kind = url ↔ exists content rest value,
        splitAtClose false (prepare raw) = some (content, rest) ∧ IsAddress content value) ∧
      forall content rest value, splitAtClose false (prepare raw) = some (content, rest) ->
        IsAddress content value -> t = .ofText url value := by
  obtain ⟨hne, hletters⟩ := isAlpha_of_sameFolded hname
  refine ⟨(addressToken (prepare raw)).1, ?_, ?_, ?_, ?_⟩
  · cases name with
    | nil => exact absurd rfl hne
    | cons c name =>
        have hprepared : Prepared (c :: name) := prepared_of_nameChars fun d hd =>
          isNameChar_of_isNameStart (isNameStart_of_isAlpha (hletters d hd))
        have htext : prepare s.toList = c :: (name ++ '(' :: prepare raw) := by
          rw [hs, prepare_append_of_prepared hprepared]
          rfl
        obtain ⟨htokens, hrest⟩ := Prod.mk.inj (pass_of_address o hname hquote)
        have htaken : (dialect.pass o c (name ++ '(' :: prepare raw)).taken =
            name ++ '(' :: (addressExtent (prepare raw)).1 := by
          have hall := (dialect.pass o c (name ++ '(' :: prepare raw)).taken_append_rest
          rw [hrest, addressToken_rest] at hall
          have hextent : name ++ '(' :: prepare raw =
              (name ++ '(' :: (addressExtent (prepare raw)).1) ++
                (addressExtent (prepare raw)).2 := by
            rw [List.append_assoc, List.cons_append, addressExtent_append]
          exact List.append_cancel_right (hall.trans hextent)
        show dialect.tokensFrom o .start (prepare s.toList) = _
        rw [htext, Dialect.tokensFrom_cons, htokens, htaken, hrest, addressToken_rest]
        rfl
  · rcases addressToken_cases (prepare raw) with hbad | ⟨hgood, -⟩
    · exact Or.inr hbad
    · exact Or.inl hgood
  · constructor
    · intro hkind
      rcases addressToken_cases (prepare raw) with hbad | ⟨-, haddress⟩
      · rw [hbad] at hkind
        exact absurd hkind (Kind.ne_of_same (by decide))
      · exact haddress
    · rintro ⟨content, rest, value, hsplit, haddress⟩
      rw [addressToken_of_isAddress hsplit haddress]
      rfl
  · intro content rest value hsplit haddress
    exact addressToken_of_isAddress hsplit haddress

def escapedAddress : List Char := " a\\)\\62 b\n)c".toList

theorem isAddress_escapedAddress :
    splitAtClose false (prepare escapedAddress) = some (" a\\)\\62 b\n".toList, ['c']) ∧
      IsAddress " a\\)\\62 b\n".toList "a)bb".toList := by
  constructor
  · decide
  · refine ⟨[' '], ['a', '\\', ')', '\\', '6', '2', ' ', 'b'], ['\n'], rfl, by simp; rfl, ?_,
      by simp; rfl⟩
    have hb : AddressText ['b'] ['b'] := .plain rfl rfl (by decide) .nil
    have hnumber : EscapeText (['6', '2'] ++ [' ']) 'b' ['b'] :=
      .spaced (by simp) (by simp) (by simp; decide) rfl
    have hclose : EscapeText [')'] ')' ('\\' :: (['6', '2'] ++ [' '] ++ ['b'])) :=
      .literal rfl (by decide)
    exact .plain rfl rfl (by decide) (.escape hclose (.escape hnumber hb))

theorem tokenize_address_escaped :
    ("URL( a\\)\\62 b\n)c".toList = ['U', 'R', 'L'] ++ '(' :: escapedAddress ∧
      Text.sameFolded (String.ofList ['U', 'R', 'L']) "url" = true ∧
      startsQuote ((prepare escapedAddress).dropWhile isBlank) = false) ∧
    exists t : Token,
      tokenize {} "URL( a\\)\\62 b\n)c" = t.placed .start ::
        dialect.tokensFrom {} (Location.start.past "URL( a\\)\\62 b\n)".toList) ['c'] ∧
      t = .ofText url "a)bb".toList := by
  have hs : "URL( a\\)\\62 b\n)c".toList = ['U', 'R', 'L'] ++ '(' :: escapedAddress := by rfl
  have hname : Text.sameFolded (String.ofList ['U', 'R', 'L']) "url" = true := by decide
  have hquote : startsQuote ((prepare escapedAddress).dropWhile isBlank) = false := by decide
  obtain ⟨hsplit, haddress⟩ := isAddress_escapedAddress
  obtain ⟨t, htokens, -, -, hvalue⟩ := tokenize_address {} hs hname hquote
  refine ⟨⟨hs, hname, hquote⟩, t, ?_, hvalue _ _ _ hsplit haddress⟩
  rw [htokens, addressExtent, hsplit]
  rfl

end Css
end StyleTokens
