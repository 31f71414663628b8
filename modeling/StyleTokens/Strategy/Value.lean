import StyleTokens.Number
import StyleTokens.Text.Quoted

/-!
# Values

The values that strategies give when their types are known only from a
description.
-/

namespace StyleTokens

inductive Value where
  | text (s : String)
  | number (n : Number)
  | bool (b : Bool)
  | list (values : List Value)
  /-- The value of a pair without halves. -/
  | noPair
  | pair (first second : Value)
  | mapping (entries : List (Value × Value))
  /-- The value of a choice that nothing fits. -/
  | noChoice
  | choice (v : Value)

namespace Value

mutual

def quoted (v : Value) : String :=
  match v with
  | .text s => Text.quoted s
  | .number n => n.quoted
  | .bool b => if b then "true" else "false"
  | .list values => "[" ++ ", ".intercalate (quotedAll values) ++ "]"
  | .noPair => "None"
  | .pair a b => "Some((" ++ a.quoted ++ ", " ++ b.quoted ++ "))"
  | .mapping entries => "\x7b" ++ ", ".intercalate (quotedEntries entries) ++ "\x7d"
  | .noChoice => "None"
  | .choice v => "Some(" ++ v.quoted ++ ")"

def quotedAll (values : List Value) : List String :=
  match values with
  | [] => []
  | v :: values => v.quoted :: quotedAll values

def quotedEntries (entries : List (Value × Value)) : List String :=
  match entries with
  | [] => []
  | (k, v) :: entries => (k.quoted ++ ": " ++ v.quoted) :: quotedEntries entries

end

instance : Inhabited Value := ⟨.noChoice⟩

/-- Values are the same key if they are quoted alike. -/
instance : BEq Value := ⟨fun a b => a.quoted == b.quoted⟩

/-!
## Values as they are typed
-/

def asText? : Value -> Option String
  | .text s => some s
  | _ => none

def asNumber? : Value -> Option Number
  | .number n => some n
  | _ => none

def asBool? : Value -> Option Bool
  | .bool b => some b
  | _ => none

def asList? : Value -> Option (List Value)
  | .list values => some values
  | _ => none

def asPair? : Value -> Option (Option (Value × Value))
  | .noPair => some none
  | .pair a b => some (some (a, b))
  | _ => none

def asMapping? : Value -> Option (List (Value × Value))
  | .mapping entries => some entries
  | _ => none

def asChoice? : Value -> Option (Option Value)
  | .noChoice => some none
  | .choice v => some (some v)
  | _ => none

def ofPair : Option (Value × Value) -> Value
  | none => .noPair
  | some (a, b) => .pair a b

def ofChoice : Option Value -> Value
  | none => .noChoice
  | some v => .choice v

end Value

end StyleTokens
