import StyleTokens.Mapping
import StyleTokens.Strategy.Listing

/-!
# Mappings read from lists

The pairs of a list are collected one by one.  The tally counts the pairs that are
missing and notes the keys that come again, since both are reported.
-/

namespace StyleTokens

namespace Mapping

structure Tally (κ ν : Type) where
  bound : Mapping κ ν := []
  /-- How many pairs were missing. -/
  missed : Nat := 0
  /-- The keys that came again, in the order in which they did so. -/
  repeated : List κ := []

namespace Tally

def noteKey [BEq κ] (t : Tally κ ν) (k : κ) : List κ :=
  if t.bound.hasKey k && !t.repeated.contains k then t.repeated ++ [k] else t.repeated

def add [BEq κ] (t : Tally κ ν) (pair : Option (κ × ν)) : Tally κ ν :=
  match pair with
  | none => { t with missed := t.missed + 1 }
  | some (k, v) => { t with bound := t.bound.insert k v, repeated := t.noteKey k }

def ofPairs [BEq κ] (pairs : List (Option (κ × ν))) : Tally κ ν := pairs.foldl add {}

def errors (shown : κ -> String) (t : Tally κ ν) : List StrategyError :=
  (if t.missed = 0 then [] else [.missedPairs t.missed]) ++
    if t.repeated.isEmpty then [] else [.duplicateKeys (t.repeated.map shown)]

end Tally

def build [BEq κ] (shown : κ -> String) (skips : Bool)
    (entries : List (Outcome String (Option (κ × ν)))) : Outcome StrategyError (Mapping κ ν) :=
  (ListShape.build skips entries).andThen fun pairs =>
    ⟨(Tally.ofPairs pairs).bound, (Tally.ofPairs pairs).errors shown⟩

end Mapping

namespace Strategy

/-- A mapping, read from a list of pairs. -/
def mapping [BEq κ] (entry : Strategy (Option (κ × ν))) (shape : ListShape)
    (shown : κ -> String) : Strategy (Mapping κ ν) :=
  { id := "Map"
    accepts := entry.startsList shape
    read := fun args failed input =>
      let found := entry.entries shape args failed input
      let built := Mapping.build shown shape.skipsFaulty (found.value.map Outcome.worded)
      ⟨built.value, found.errors ++ built.errors, found.rest, found.rest_suffix⟩
    emit := fun m => entry.emitList shape.encoding (m.map some) }

theorem isSteady_mapping [BEq κ] {entry : Strategy (Option (κ × ν))} (h : entry.IsSteady)
    (shape : ListShape) (shown : κ -> String) : (entry.mapping shape shown).IsSteady := by
  intro args failed input
  simp only [mapping, entries_failed h]

end Strategy

end StyleTokens
