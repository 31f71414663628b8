import StyleTokens.Css.Dialect
import StyleTokens.Structure.StyleBlock

/-!
# Style sheets

From the text of a style sheet to its rules and back.
-/

namespace StyleTokens

/-- The rules of a style sheet, in order. -/
structure Stylesheet where
  rules : List Rule

namespace Stylesheet

def parse (o : Options) (s : String) : Outcome StructureError Stylesheet :=
  (Rule.readAll (.ofOptions o) (Css.tokenize o s)).outcome.map fun rules => ⟨rules⟩

def qualifiedRules (s : Stylesheet) : List QualifiedRule :=
  s.rules.filterMap Rule.asQualified?

def namedRules (s : Stylesheet) : List AtRule :=
  s.rules.filterMap Rule.asNamed?

def source (s : Stylesheet) : String :=
  "\n".intercalate ((s.rules.map Rule.source).filter fun text => text != "")

end Stylesheet

namespace StyleBlock

def parse (s : String) : Outcome StructureError StyleBlock :=
  (read (.ofOptions {}) (Css.tokenize {} s)).outcome

end StyleBlock

end StyleTokens
