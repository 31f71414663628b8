/-!
# ASCII text

Character classes and case folding that look at ASCII alone.  Case folding
touches `A` to `Z` only, so names outside ASCII keep their spelling.
-/

namespace StyleTokens
namespace Text

def isHexDigit (c : Char) : Bool :=
  c.isDigit || ('a' ≤ c && c ≤ 'f') || ('A' ≤ c && c ≤ 'F')

def hexValue (c : Char) : Nat :=
  if c.isDigit then c.toNat - '0'.toNat
  else if 'a' ≤ c then c.toNat - 'a'.toNat + 10
  else c.toNat - 'A'.toNat + 10

def hexNumber (cs : List Char) : Nat :=
  cs.foldl (fun n c => 16 * n + hexValue c) 0

def decimalNumber (cs : List Char) : Nat :=
  cs.foldl (fun n c => 10 * n + (c.toNat - '0'.toNat)) 0

def hexText (n : Nat) : List Char :=
  Nat.toDigits 16 n

/-- A control character: the two blocks below U+0020 and from U+007F to U+009F. -/
def isControl (c : Char) : Bool :=
  c.toNat < 0x20 || (0x7F ≤ c.toNat && c.toNat ≤ 0x9F)

def lower (s : String) : String :=
  String.ofList (s.toList.map Char.toLower)

def sameFolded (a b : String) : Bool :=
  lower a == lower b

def splitSign : List Char -> List Char × List Char
  | c :: cs => if c = '+' ∨ c = '-' then ([c], cs) else ([], c :: cs)
  | [] => ([], [])

def isDigitOrPoint (c : Char) : Bool := c.isDigit || c == '.'

/-- The longest run of at most `n` leading characters in a class, and what
follows it. -/
def spanUpTo (p : Char -> Bool) : Nat -> List Char -> List Char × List Char
  | 0, cs => ([], cs)
  | _ + 1, [] => ([], [])
  | n + 1, c :: cs =>
      if p c then
        let found := spanUpTo p n cs
        (c :: found.1, found.2)
      else ([], c :: cs)

/-!
## Lower case
-/

theorem isUpper_iff {c : Char} : c.isUpper = true ↔ 65 ≤ c.toNat ∧ c.toNat ≤ 90 :=
  decide_eq_true_iff

theorem isLower_iff {c : Char} : c.isLower = true ↔ 97 ≤ c.toNat ∧ c.toNat ≤ 122 := by
  show (decide (c.val ≥ 97) && decide (c.val ≤ 122)) = true ↔ _
  rw [Bool.and_eq_true, decide_eq_true_iff, decide_eq_true_iff]
  exact Iff.rfl

theorem toLower_cases (c : Char) :
    (c.isUpper = false ∧ c.toLower = c) ∨ (c.isUpper = true ∧ c.toLower.isLower = true) := by
  unfold Char.toLower
  split
  · rename_i hupper
    have hbounds : 65 ≤ c.val.toNat ∧ c.val.toNat ≤ 90 := hupper
    right
    refine ⟨isUpper_iff.mpr hbounds, isLower_iff.mpr ?_⟩
    show 97 ≤ (c.val + 32).toNat ∧ (c.val + 32).toNat ≤ 122
    rw [UInt32.toNat_add]
    simp only [UInt32.reduceToNat]
    omega
  · rename_i hother
    left
    refine ⟨?_, rfl⟩
    rw [← Bool.not_eq_true, isUpper_iff]
    exact hother

theorem isAlpha_toLower (c : Char) : c.toLower.isAlpha = c.isAlpha := by
  rcases toLower_cases c with ⟨-, hsame⟩ | ⟨hupper, hlower⟩
  · rw [hsame]
  · show (c.toLower.isUpper || c.toLower.isLower) = (c.isUpper || c.isLower)
    rw [hupper, hlower, Bool.or_true, Bool.true_or]

theorem toLower_eq_iff {c d : Char} (hd : d.isAlpha = false) : c.toLower = d ↔ c = d := by
  rcases toLower_cases c with ⟨-, hsame⟩ | ⟨hupper, -⟩
  · rw [hsame]
  · have hc : c.isAlpha = true := Bool.or_eq_true_iff.mpr (.inl hupper)
    refine iff_of_false ?_ ?_
    · rintro rfl
      rw [isAlpha_toLower, hc] at hd
      cases hd
    · rintro rfl
      rw [hc] at hd
      cases hd

theorem toLower_toLower (c : Char) : c.toLower.toLower = c.toLower := by
  rcases toLower_cases c with ⟨-, hsame⟩ | ⟨-, hlower⟩
  · rw [hsame, hsame]
  · rcases toLower_cases c.toLower with ⟨-, hsame⟩ | ⟨hupper, -⟩
    · exact hsame
    · rw [isLower_iff] at hlower
      rw [isUpper_iff] at hupper
      omega

/-!
## Runs
-/

theorem splitSign_suffix (cs : List Char) : (splitSign cs).2 <:+ cs := by
  cases cs with
  | nil => exact List.suffix_refl []
  | cons c cs =>
      rw [splitSign]
      split
      · exact List.suffix_cons c cs
      · exact List.suffix_refl (c :: cs)

theorem spanUpTo_append (p : Char -> Bool) (n : Nat) (cs : List Char) :
    (spanUpTo p n cs).1 ++ (spanUpTo p n cs).2 = cs := by
  induction n generalizing cs with
  | zero => rfl
  | succ n ih =>
      cases cs with
      | nil => rfl
      | cons c cs =>
          rw [spanUpTo]
          split
          · simp [ih cs]
          · rfl

theorem spanUpTo_snd_suffix (p : Char -> Bool) (n : Nat) (cs : List Char) :
    (spanUpTo p n cs).2 <:+ cs :=
  ⟨(spanUpTo p n cs).1, spanUpTo_append p n cs⟩

end Text
end StyleTokens
