import StyleTokens.Strategy.Choice
import StyleTokens.Strategy.Mapping
import StyleTokens.Strategy.Pairing
import StyleTokens.Strategy.Primitive
import StyleTokens.Strategy.Value

/-!
# Descriptions of strategies

A strategy described by data, at any depth.  All the strategies that descriptions
give read and write the one type of values.
-/

namespace StyleTokens

/-- A way to write a value as one token of a kind, with a text in front of its
own. -/
structure Provider where
  kind : Kind
  lead : String := ""

namespace Provider

def tokens (p : Provider) (text : String) : List Token := [.of p.kind (.text (p.lead ++ text))]

end Provider

mutual

/-- A description of a strategy. -/
inductive Spec where
  | string (scope : Scope) (provider : Option Provider)
  | number (scope : Scope) (provider : Option Provider)
  | boolean (scope : Scope) (provider : Option Provider)
  | list (element : Spec) (shape : ListShape)
  | pair (p : PairSpec)
  | mapping (entry : PairSpec) (shape : ListShape)
  | choice (candidates : List Spec) (provider : Option Provider)

/-- A description of a strategy for pairs. -/
inductive PairSpec where
  | plain (first second : Spec) (delimiter : Option Delimiter)
  /-- The key is looked up in a table of strategies. -/
  | keyed (key : Spec) (table : List (String × Spec)) (delimiter : Delimiter)

end

instance : Inhabited Spec := ⟨.choice [] none⟩

instance : Inhabited PairSpec := ⟨.plain default default none⟩

namespace Strategy

/-- The same strategy for values of another type.  Some of them may not fit. -/
def adapt (s : Strategy α) (inject : α -> β) (project : β -> Option α) : Strategy β :=
  { id := s.id
    accepts := s.accepts
    read := fun args failed input => (s.read args failed input).map inject
    emit := fun b =>
      match project b with
      | some a => s.emit a
      | none => .error (.encodingUnsupported s.id "?" "mismatch") }

theorem isSteady_adapt {s : Strategy α} (h : s.IsSteady) (inject : α -> β)
    (project : β -> Option α) : (s.adapt inject project).IsSteady := by
  intro args failed input
  simp only [adapt, h args failed]

def ofText (s : Strategy String) : Strategy Value := s.adapt .text Value.asText?

def ofNumber (s : Strategy Number) : Strategy Value := s.adapt .number Value.asNumber?

def ofBool (s : Strategy Bool) : Strategy Value := s.adapt .bool Value.asBool?

end Strategy

namespace Spec

def givesText : Spec -> Bool
  | .string _ _ => true
  | _ => false

def kind? : Spec -> Option Kind
  | .string scope _ => some scope.kind
  | .number scope _ => some scope.kind
  | .boolean scope _ => some scope.kind
  | _ => none

/-- The entry of a table that a key stands for: the text itself if keys are texts,
and what a message would quote if not. -/
def entryName (texts : Bool) (key : Value) : String :=
  match texts, key.asText? with
  | true, some s => s
  | _, _ => key.quoted

def fitting? (texts : Bool) (pair : Option (Value × Value)) : Option (Option (Value × Value)) :=
  match pair with
  | some (key, _) => if texts && key.asText?.isNone then none else some pair
  | none => some none

end Spec

mutual

def Spec.strategy (spec : Spec) : Strategy Value :=
  match spec with
  | .string scope provider =>
      (Primitive.string.strategy scope (provider.map fun p s => p.tokens s)).ofText
  | .number scope provider =>
      (Primitive.number.strategy scope (provider.map fun p n => p.tokens n.text)).ofNumber
  | .boolean scope provider =>
      (Primitive.boolean.strategy scope
        (provider.map fun p b => p.tokens (if b then "true" else "false"))).ofBool
  | .list element shape => (element.strategy.list shape).adapt .list Value.asList?
  | .pair p => p.strategy.adapt Value.ofPair Value.asPair?
  | .mapping entry shape =>
      (entry.strategy.mapping shape Value.quoted).adapt .mapping Value.asMapping?
  | .choice candidates provider =>
      (Strategy.choice (Spec.strategies candidates)
        (provider.map fun p v => p.tokens v.quoted)).adapt Value.ofChoice Value.asChoice?

def PairSpec.strategy (spec : PairSpec) : Strategy (Option (Value × Value)) :=
  match spec with
  | .plain first second delimiter => first.strategy.pair second.strategy delimiter
  | .keyed key table delimiter =>
      let select (v : Value) := (Spec.table table).lookup (Spec.entryName key.givesText v)
      (key.strategy.keyed select Value.quoted delimiter).adapt id (Spec.fitting? key.givesText)

def Spec.strategies (specs : List Spec) : List (Strategy Value) :=
  match specs with
  | [] => []
  | spec :: specs => spec.strategy :: Spec.strategies specs

def Spec.table (entries : List (String × Spec)) : List (String × Strategy Value) :=
  match entries with
  | [] => []
  | (name, spec) :: entries => (name, spec.strategy) :: Spec.table entries

end

theorem Spec.strategies_eq_map (specs : List Spec) :
    Spec.strategies specs = specs.map Spec.strategy := by
  induction specs with
  | nil => rfl
  | cons spec specs ih => rw [Spec.strategies, ih, List.map_cons]

theorem Spec.table_eq_map (entries : List (String × Spec)) :
    Spec.table entries = entries.map fun e => (e.1, e.2.strategy) := by
  induction entries with
  | nil => rfl
  | cons entry entries ih =>
      obtain ⟨name, spec⟩ := entry
      rw [Spec.table, ih, List.map_cons]

end StyleTokens
