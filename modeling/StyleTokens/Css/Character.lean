/-!
# Character classes of style sheets

The classes that decide where names, numbers and blanks end.  Every character
outside ASCII may stand in a name.
-/

namespace StyleTokens
namespace Css

def isNameStart (c : Char) : Bool :=
  c.isAlpha || c == '_' || 0x80 ≤ c.toNat

def isNameChar (c : Char) : Bool :=
  isNameStart c || c.isDigit || c == '-'

/-- A space, a tab or a line feed; the input filter leaves no other blank. -/
def isBlank (c : Char) : Bool :=
  c == ' ' || c == '\t' || c == '\n'

def isUnprintable (c : Char) : Bool :=
  c.toNat ≤ 0x08 || c.toNat == 0x0B || (0x0E ≤ c.toNat && c.toNat ≤ 0x1F) || c.toNat == 0x7F

theorem isNameChar_of_isNameStart {c : Char} (h : isNameStart c = true) :
    isNameChar c = true := by
  simp [isNameChar, h]

end Css
end StyleTokens
