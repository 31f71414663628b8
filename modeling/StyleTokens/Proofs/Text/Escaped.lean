import Mathlib.Data.List.TakeWhile
import StyleTokens.Text.Quoted

/-!
# Escaped text

A character that is written by its number can be told from the digits, and no two texts are
quoted alike: what stands for a character in a quoted text ends where the next one begins.
-/

namespace StyleTokens

namespace Text

/-!
## Hexadecimal numbers
-/

theorem hexValue_digitChar : forall n, n < 16 -> hexValue n.digitChar = n := by
  decide

theorem isHexDigit_digitChar : forall n, n < 16 -> isHexDigit n.digitChar = true := by
  decide

theorem hexNumber_concat (cs : List Char) (c : Char) :
    hexNumber (cs ++ [c]) = 16 * hexNumber cs + hexValue c := by
  rw [hexNumber, List.foldl_append]
  rfl

theorem hexNumber_hexText (n : Nat) : hexNumber (hexText n) = n := by
  induction n using Nat.strongRecOn with
  | ind n ih =>
      rw [hexText, Nat.toDigits_eq_if (by decide)]
      split
      · rename_i hn
        simp [hexNumber, hexValue_digitChar n hn]
      · have hlow : n % 16 < 16 := Nat.mod_lt n (by decide)
        have hhigh : hexNumber (Nat.toDigits 16 (n / 16)) = n / 16 := ih (n / 16) (by omega)
        rw [hexNumber_concat, hhigh, hexValue_digitChar _ hlow]
        omega

theorem isHexDigit_of_mem_hexText {n : Nat} {c : Char} (hc : c ∈ hexText n) :
    isHexDigit c = true := by
  induction n using Nat.strongRecOn with
  | ind n ih =>
      rw [hexText, Nat.toDigits_eq_if (by decide)] at hc
      split at hc
      · rename_i hn
        rcases List.mem_singleton.mp hc with rfl
        exact isHexDigit_digitChar n hn
      · rcases List.mem_append.mp hc with hc | hc
        · exact ih (n / 16) (by omega) hc
        · rcases List.mem_singleton.mp hc with rfl
          exact isHexDigit_digitChar _ (Nat.mod_lt n (by decide))

theorem length_hexText_le (c : Char) : (hexText c.toNat).length ≤ 6 := by
  have hc : c.toNat < 0x110000 := by
    have hvalid := c.valid
    simp only [UInt32.isValidChar, Nat.isValidChar] at hvalid
    simp only [Char.toNat]
    omega
  exact (Nat.length_toDigits_le_iff (by decide) (by decide)).mpr (by omega)

/-!
## Quoted texts
-/

def shortEscapes : List (Char × Char) :=
  [('"', '"'), ('\\', '\\'), ('n', '\n'), ('r', '\r'), ('t', '\t'), ('0', '\x00')]

theorem quotedChar_cases (c : Char) :
    (exists e, (e, c) ∈ shortEscapes ∧ quotedChar c = ['\\', e]) ∨
      quotedChar c = ['\\', 'u', '\x7b'] ++ hexText c.toNat ++ ['\x7d'] ∨
      c ≠ '\\' ∧ quotedChar c = [c] := by
  by_cases hshort : c ∈ shortEscapes.map Prod.snd
  · rcases List.mem_map.mp hshort with ⟨⟨e, _⟩, he, rfl⟩
    refine Or.inl ⟨e, he, ?_⟩
    simp only [shortEscapes, List.mem_cons, Prod.mk.injEq, List.not_mem_nil, or_false] at he
    rcases he with ⟨rfl, rfl⟩ | ⟨rfl, rfl⟩ | ⟨rfl, rfl⟩ | ⟨rfl, rfl⟩ | ⟨rfl, rfl⟩ | ⟨rfl, rfl⟩ <;>
      rfl
  · have hne : c ≠ '"' ∧ c ≠ '\\' ∧ c ≠ '\n' ∧ c ≠ '\r' ∧ c ≠ '\t' ∧ c ≠ '\x00' := by
      simpa [shortEscapes] using hshort
    obtain ⟨hquote, hslash, hn, hr, ht, hzero⟩ := hne
    refine Or.inr ?_
    rw [quotedChar, if_neg hquote, if_neg hslash, if_neg hn, if_neg hr, if_neg ht, if_neg hzero]
    split
    · exact Or.inl rfl
    · exact Or.inr ⟨hslash, rfl⟩

theorem quotedChar_ne_nil (c : Char) : quotedChar c ≠ [] := by
  rcases quotedChar_cases c with ⟨e, _, h⟩ | h | ⟨_, h⟩ <;> rw [h] <;> simp

theorem hexText_append_inj {m n : Nat} {rest rest' : List Char}
    (h : hexText m ++ '\x7d' :: rest = hexText n ++ '\x7d' :: rest') : m = n ∧ rest = rest' := by
  have htake : forall k cs, (hexText k ++ '\x7d' :: cs).takeWhile isHexDigit = hexText k := by
    intro k cs
    rw [List.takeWhile_append_of_pos fun _ => isHexDigit_of_mem_hexText,
      List.takeWhile_cons_of_neg (by decide), List.append_nil]
  have hdrop : forall k cs, (hexText k ++ '\x7d' :: cs).dropWhile isHexDigit = '\x7d' :: cs := by
    intro k cs
    rw [List.dropWhile_append_of_pos fun _ => isHexDigit_of_mem_hexText,
      List.dropWhile_cons_of_neg (by decide)]
  have hdigits := congrArg (List.takeWhile isHexDigit) h
  have hrest := congrArg (List.dropWhile isHexDigit) h
  rw [htake, htake] at hdigits
  rw [hdrop, hdrop] at hrest
  have hnumber := congrArg hexNumber hdigits
  rw [hexNumber_hexText, hexNumber_hexText] at hnumber
  exact ⟨hnumber, (List.cons.inj hrest).2⟩

theorem eq_of_shortEscapes {e c d : Char} (hc : (e, c) ∈ shortEscapes)
    (hd : (e, d) ∈ shortEscapes) : c = d := by
  have hall : forall p, p ∈ shortEscapes -> forall q, q ∈ shortEscapes ->
      p.1 = q.1 -> p.2 = q.2 := by
    decide
  exact hall _ hc _ hd rfl

theorem ne_of_shortEscapes {e c : Char} (h : (e, c) ∈ shortEscapes) : e ≠ 'u' := by
  have hall : forall p, p ∈ shortEscapes -> p.1 ≠ 'u' := by decide
  exact hall _ h

/-- What stands for a character in a quoted text ends where the next one begins. -/
theorem quotedChar_append_inj {c d : Char} {rest rest' : List Char}
    (h : quotedChar c ++ rest = quotedChar d ++ rest') : c = d ∧ rest = rest' := by
  rcases quotedChar_cases c with ⟨e, he, hc⟩ | hc | ⟨hslash, hc⟩ <;>
    rcases quotedChar_cases d with ⟨e', he', hd⟩ | hd | ⟨hslash', hd⟩ <;>
    rw [hc, hd] at h <;>
    simp only [List.cons_append, List.nil_append, List.append_assoc, List.cons.injEq,
      true_and] at h
  · obtain ⟨rfl, rfl⟩ := h
    exact ⟨eq_of_shortEscapes he he', rfl⟩
  · exact absurd h.1 (ne_of_shortEscapes he)
  · exact absurd h.1.symm hslash'
  · exact absurd h.1.symm (ne_of_shortEscapes he')
  · obtain ⟨hnumber, hrest⟩ := hexText_append_inj h
    exact ⟨Char.toNat_inj.mp hnumber, hrest⟩
  · exact absurd h.1.symm hslash'
  · exact absurd h.1 hslash
  · exact absurd h.1 hslash
  · exact h

theorem quoted_injective {s t : String} (h : quoted s = quoted t) : s = t := by
  have hchars := congrArg String.toList h
  simp only [quoted, String.toList_ofList, List.append_cancel_right_eq,
    List.append_cancel_left_eq] at hchars
  apply String.toList_inj.mp
  generalize s.toList = cs at hchars ⊢
  generalize t.toList = ds at hchars ⊢
  induction cs generalizing ds with
  | nil =>
      cases ds with
      | nil => rfl
      | cons d ds =>
          rw [List.flatMap_cons] at hchars
          exact absurd (List.append_eq_nil_iff.mp hchars.symm).1 (quotedChar_ne_nil d)
  | cons c cs ih =>
      cases ds with
      | nil =>
          rw [List.flatMap_cons] at hchars
          exact absurd (List.append_eq_nil_iff.mp hchars).1 (quotedChar_ne_nil c)
      | cons d ds =>
          rw [List.flatMap_cons, List.flatMap_cons] at hchars
          obtain ⟨rfl, hrest⟩ := quotedChar_append_inj hchars
          rw [ih ds hrest]

end Text
end StyleTokens
