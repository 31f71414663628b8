import StyleTokens.Dialect

/-!
# Drafts of dialects

A dialect is drafted step by step.  The first mistake is kept and reported when
the draft is finished.
-/

namespace StyleTokens
namespace Dialect

/-- A dialect under construction with the first mistake made in it. -/
structure Draft where
  dialect : Dialect
  error : Option RegistryError

namespace Draft

def new (name : String) : Draft :=
  { dialect :=
      { name, registry := .core, scanners := [], fallback := .unknown, prepare := id }
    error := none }

def fail (b : Draft) (e : RegistryError) : Draft :=
  { b with error := some (b.error.getD e) }

/-- Add a kind of the dialect.  Nothing is added after a mistake. -/
def kind (b : Draft) (k : Kind) : Draft :=
  if b.error.isSome then b
  else if k.dialect ≠ b.dialect.name then
    b.fail (.foreignKind k.dialect k.name b.dialect.name)
  else
    match b.dialect.registry.register k with
    | .ok registry => { b with dialect := { b.dialect with registry } }
    | .error e => b.fail e

def kinds (b : Draft) (ks : List Kind) : Draft :=
  ks.foldl kind b

def scanner (b : Draft) (s : Scanner) : Draft :=
  let known := b.dialect.scanners.any fun other => other.id == s.id
  let added := { b with dialect := { b.dialect with scanners := b.dialect.scanners ++ [s] } }
  if known then added.fail (.duplicateScanner b.dialect.name s.id) else added

def fallback (b : Draft) (k : Kind) : Draft :=
  { b with dialect := { b.dialect with fallback := k } }

def prepare (b : Draft) (f : List Char -> List Char) : Draft :=
  { b with dialect := { b.dialect with prepare := f } }

def build (b : Draft) : Except RegistryError Dialect :=
  match b.error with
  | some e => .error e
  | none => .ok b.dialect

end Draft

end Dialect
end StyleTokens
