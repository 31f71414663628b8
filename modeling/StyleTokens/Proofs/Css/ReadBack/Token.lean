import StyleTokens.Proofs.Css.ReadBack.Value

/-!
# Written tokens

Nothing that is written has to be prepared, but for what a string holds.  A written
name starts a name again, and a written hash has one behind its sign.
-/

namespace StyleTokens

/-!
## Tokens without their place
-/

theorem Token.placed_placed (t : Token) (l m : Location) :
    (t.placed l).placed m = t.placed m := by
  match t with
  | ⟨kind, .inner u, location, error⟩ =>
      show Token.mk kind (.inner ((u.placed l).placed m)) m error = _
      rw [u.placed_placed l m]
      rfl
  | ⟨_, .none, _, _⟩ | ⟨_, .char _, _, _⟩ | ⟨_, .text _, _, _⟩ | ⟨_, .number _, _, _⟩
  | ⟨_, .dimension _ _, _, _⟩ | ⟨_, .bool _, _, _⟩ | ⟨_, .block _, _, _⟩
  | ⟨_, .call _, _, _⟩ => rfl

namespace Token

def unplaced (t : Token) : Token := t.placed .unknown

@[simp] theorem unplaced_placed (t : Token) (l : Location) :
    (t.placed l).unplaced = t.unplaced :=
  t.placed_placed l .unknown

@[simp] theorem unplaced_unplaced (t : Token) : t.unplaced.unplaced = t.unplaced :=
  t.placed_placed .unknown .unknown

end Token

namespace Css

open Encoding

/-!
## Written texts need no preparing
-/

theorem prepared_nil : Prepared [] := by
  intro c hc
  cases hc

theorem prepared_cons {c : Char} {cs : List Char} (hc : isReplaced c = false)
    (h : Prepared cs) : Prepared (c :: cs) := by
  intro d hd
  rcases List.mem_cons.mp hd with rfl | hd
  · exact hc
  · exact h d hd

theorem prepared_flatMap {f : Char -> List Char} {cs : List Char}
    (h : forall c, c ∈ cs -> Prepared (f c)) : Prepared (cs.flatMap f) := by
  intro d hd
  rcases List.mem_flatMap.mp hd with ⟨c, hc, hd⟩
  exact h c hc d hd

theorem not_isReplaced_of_class {p : Char -> Bool}
    (hp : (['\r', '\x0C', '\x00'].all fun c => !p c) = true) {c : Char} (hc : p c = true) :
    isReplaced c = false := by
  rw [Bool.eq_false_iff]
  intro hreplaced
  have hmem : c ∈ ['\r', '\x0C', '\x00'] := by
    simpa [isReplaced, or_assoc] using hreplaced
  have hnot : p c = false := by
    simpa using List.all_eq_true.mp hp c hmem
  rw [hc] at hnot
  cases hnot

theorem prepared_of_class {p : Char -> Bool}
    (hp : (['\r', '\x0C', '\x00'].all fun c => !p c) = true) {cs : List Char}
    (h : forall c, c ∈ cs -> p c = true) : Prepared cs :=
  fun c hc => not_isReplaced_of_class hp (h c hc)

theorem prepared_of_nameChars {cs : List Char} (h : forall c, c ∈ cs -> isNameChar c = true) :
    Prepared cs :=
  prepared_of_class (p := isNameChar) (by decide) h

theorem prepared_of_any {cs : List Char} (h : cs.any isReplaced = false) : Prepared cs := by
  intro c hc
  rw [Bool.eq_false_iff]
  intro hreplaced
  rw [List.any_eq_true.mpr ⟨c, hc, hreplaced⟩] at h
  cases h

theorem prepare_append_of_prepared {cs : List Char} (h : Prepared cs) (rest : List Char) :
    prepare (cs ++ rest) = cs ++ prepare rest := by
  induction cs with
  | nil => rfl
  | cons c cs ih =>
      have hc := h c List.mem_cons_self
      simp only [isReplaced, Bool.or_eq_false_iff, beq_eq_false_iff_ne] at hc
      rcases hc with ⟨⟨hreturn, hfeed⟩, hzero⟩
      rw [List.cons_append, prepare.eq_3 _ _ (fun cs hcons _ => hreturn hcons),
        if_neg (by simp [hreturn, hfeed]), if_neg hzero, ih h.tail, List.cons_append]

theorem prepared_hexEscape (c : Char) : Prepared (hexEscape c) := by
  refine Prepared.append (prepared_cons (by decide) ?_) (prepared_cons (by decide) prepared_nil)
  exact prepared_of_class (p := Text.isHexDigit) (by decide)
    fun d hd => Text.isHexDigit_of_mem_hexText hd

theorem not_isReplaced_of_not_needsNumber {c : Char} (h : ¬needsNumber c = true) :
    isReplaced c = false :=
  not_isReplaced_of_class (p := fun c => !needsNumber c) (by decide) (by simpa using h)

theorem prepared_nameChar (c : Char) : Prepared (nameChar c) := by
  unfold nameChar
  split
  · exact prepared_hexEscape c
  · rename_i hnumber
    have hplain : Prepared [c] :=
      prepared_cons (not_isReplaced_of_not_needsNumber hnumber) prepared_nil
    split
    · exact hplain
    · exact prepared_cons (by decide) hplain

theorem prepared_nameStart (c : Char) : Prepared (nameStart c) := by
  unfold nameStart
  split
  · exact prepared_hexEscape c
  · exact prepared_nameChar c

theorem prepared_hashName (cs : List Char) : Prepared (hashName cs) :=
  prepared_flatMap fun c _ => prepared_nameChar c

theorem prepared_writeName (cs : List Char) : Prepared (writeName cs) := by
  unfold writeName
  split
  · exact prepared_nil
  · exact prepared_cons (by decide) (prepared_cons (by decide) prepared_nil)
  · exact (prepared_cons (by decide) (prepared_nameStart _)).append (prepared_hashName _)
  · exact (prepared_nameStart _).append (prepared_hashName _)

theorem prepared_addressChar (c : Char) : Prepared (addressChar c) := by
  unfold addressChar
  split
  · rename_i hmark
    have hplain : isReplaced c = false :=
      not_isReplaced_of_class (p := isAddressMark) (by decide) hmark
    exact prepared_cons (by decide) (prepared_cons hplain prepared_nil)
  · split
    · exact prepared_hexEscape c
    · rename_i hnumber
      have hplain : Prepared [c] :=
        prepared_cons (not_isReplaced_of_not_needsNumber hnumber) prepared_nil
      split
      · exact prepared_cons (by decide) hplain
      · exact hplain

theorem prepared_writeAddress (cs : List Char) : Prepared (writeAddress cs) := by
  have hopen : Prepared ['u', 'r', 'l', '('] := prepared_of_any (by decide)
  have hclose : Prepared [')'] := prepared_cons (by decide) prepared_nil
  exact (hopen.append (prepared_flatMap fun c _ => prepared_addressChar c)).append hclose

theorem prepared_quotedChar {c : Char} (hc : isReplaced c = false) : Prepared (quotedChar c) := by
  unfold quotedChar
  split
  · exact prepared_of_any (by decide)
  · split
    · exact prepared_of_any (by decide)
    · split
      · exact prepared_of_any (by decide)
      · exact prepared_cons hc prepared_nil

theorem prepared_writeQuoted {cs : List Char} (h : Prepared cs) : Prepared (writeQuoted cs) := by
  have hquote : Prepared ['"'] := prepared_cons (by decide) prepared_nil
  exact (hquote.append (prepared_flatMap fun c hc => prepared_quotedChar (h c hc))).append hquote

theorem prepared_integerText (n : Int) : Prepared (integerText n) := by
  have hdigits : Prepared (Nat.toDigits 10 n.natAbs) :=
    prepared_of_class (p := Char.isDigit) (by decide) fun c hc => isDigit_of_mem_toDigits hc
  unfold integerText
  split
  · exact prepared_cons (by decide) hdigits
  · exact hdigits

/-!
## How written names start
-/

theorem toList_encode (k : Kind) (cs : List Char) :
    (k.encode (String.ofList cs)).toList = k.encoder cs := by
  simp [Kind.encode]

theorem not_isBlank_of_startsName {c : Char} {cs : List Char}
    (h : startsName (c :: cs) = true) : isBlank c = false := by
  rw [Bool.eq_false_iff]
  intro hblank
  rcases isBlank_cases hblank with rfl | rfl | rfl
  all_goals rcases startsName_head h with heq | heq | hstart
  all_goals first | exact absurd heq (by decide) | exact absurd hstart (by decide)

theorem writeName_head {cs : List Char} (hcs : cs ≠ []) :
    exists c ds, writeName cs = c :: ds ∧ isBlank c = false := by
  have hname := startsName_writeName hcs []
  rw [List.append_nil] at hname
  cases hwrite : writeName cs with
  | nil =>
      rw [hwrite] at hname
      cases hname
  | cons c ds =>
      rw [hwrite] at hname
      exact ⟨c, ds, rfl, not_isBlank_of_startsName hname⟩

theorem startsHashName_of_startsEscape {cs : List Char} (h : startsEscape cs = true) :
    startsHashName cs = true := by
  cases cs with
  | nil => cases h
  | cons c cs => rw [startsHashName, h, Bool.or_true]

theorem startsHashName_hashName {cs : List Char} (hcs : cs ≠ []) (rest : List Char) :
    startsHashName (hashName cs ++ rest) = true := by
  cases cs with
  | nil => exact absurd rfl hcs
  | cons c cs =>
      rw [hashName, List.flatMap_cons, List.append_assoc]
      rcases nameChar_cases c with hchar | ⟨hname, hchar⟩ | ⟨_, hline, hchar⟩
      · rw [hchar]
        exact startsHashName_of_startsEscape (startsEscape_hexEscape c _)
      · rw [hchar, List.singleton_append, startsHashName, hname, Bool.true_or]
      · rw [hchar]
        exact startsHashName_of_startsEscape (startsEscape_backslash hline _)

end Css
end StyleTokens
