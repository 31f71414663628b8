/-!
# Kinds of tokens

A kind is known by its dialect and its name.  What else it carries says how its
tokens are treated and written, and does not take part in telling kinds apart.
-/

namespace StyleTokens

structure Kind where
  /-- The dialect that owns the kind. -/
  dialect : String
  /-- The name of the kind within its dialect. -/
  name : String
  /-- Do its tokens only separate others? -/
  blank : Bool := false
  /-- Do its tokens end a line or the whole text? -/
  terminator : Bool := false
  /-- Do its tokens stand for malformed input? -/
  faulty : Bool := false
  /-- The source of a token without a value. -/
  raw : Option String := none
  /-- How the text of a token is written as source. -/
  encoder : List Char -> List Char := id

namespace Kind

def same (a b : Kind) : Bool :=
  a.dialect == b.dialect && a.name == b.name

@[simp] theorem same_refl (k : Kind) : k.same k = true := by
  simp [same]

theorem same_iff {a b : Kind} :
    a.same b = true ↔ a.dialect = b.dialect ∧ a.name = b.name := by
  simp [same]

theorem same_comm (a b : Kind) : a.same b = b.same a := by
  rw [Bool.eq_iff_iff, same_iff, same_iff]
  constructor
  · exact fun h => ⟨h.1.symm, h.2.symm⟩
  · exact fun h => ⟨h.1.symm, h.2.symm⟩

theorem same_congr {a b : Kind} (h : a.same b = true) (k : Kind) : a.same k = b.same k := by
  rw [same_iff] at h
  rw [same, same, h.1, h.2]

theorem not_mem_of_same {k : Kind} {ks : List Kind} (h : ks.any k.same = false) : k ∉ ks := by
  intro hk
  rw [List.any_eq_false] at h
  exact h k hk (same_refl k)

theorem ne_of_same {a b : Kind} (h : a.same b = false) : a ≠ b := by
  rintro rfl
  rw [same_refl] at h
  cases h

def identity (k : Kind) : String × String := (k.dialect, k.name)

theorem identity_eq_iff {a b : Kind} : a.identity = b.identity ↔ a.same b = true := by
  rw [identity, identity, Prod.mk.injEq, same_iff]

def path (k : Kind) : String :=
  k.dialect ++ ":" ++ k.name

def encode (k : Kind) (s : String) : String :=
  String.ofList (k.encoder s.toList)

def core : String := "core"

/-- The end of a line, where lines matter. -/
def eol : Kind := { dialect := core, name := "eol", terminator := true, raw := some "\n" }

/-- The end of the text, always the last token. -/
def eof : Kind := { dialect := core, name := "eof", terminator := true, raw := some "" }

/-- A character that no rule of the dialect reads. -/
def unknown : Kind := { dialect := core, name := "unknown", faulty := true }

end Kind

end StyleTokens
