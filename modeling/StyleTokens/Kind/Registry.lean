import StyleTokens.Kind
import StyleTokens.Mapping

/-!
# Registries of kinds

The kinds in use, by their dialects and in these by their names.  Registering looks
only at the identity of a kind, so a second kind of the same dialect and name is
refused whatever else it carries, and the first one stays.
-/

namespace StyleTokens

inductive RegistryError where
  | duplicateKind (dialect name : String)
  | duplicateScanner (dialect id : String)
  | foreignKind (dialect name expected : String)
  deriving DecidableEq, Repr

namespace RegistryError

def message : RegistryError -> String
  | duplicateKind dialect name =>
      "Token type " ++ dialect ++ ":" ++ name ++ " registered twice"
  | duplicateScanner dialect id =>
      "Producer " ++ id ++ " registered twice in dialect " ++ dialect
  | foreignKind dialect name expected =>
      "Token type " ++ dialect ++ ":" ++ name ++ " does not belong to dialect " ++ expected

end RegistryError

/-- The registered kinds: for every dialect in use its kinds by their names. -/
structure Registry where
  dialects : Mapping String (Mapping String Kind)

namespace Registry

def empty : Registry := ⟨[]⟩

def table (r : Registry) (dialect : String) : Mapping String Kind :=
  (r.dialects.get? dialect).getD []

def get? (r : Registry) (dialect name : String) : Option Kind :=
  (r.table dialect).get? name

def contains (r : Registry) (k : Kind) : Bool :=
  (r.get? k.dialect k.name).isSome

def size (r : Registry) : Nat := (r.dialects.flatMap Prod.snd).length

def opened (r : Registry) (dialect : String) : Registry :=
  if r.dialects.hasKey dialect then r else ⟨r.dialects.insert dialect []⟩

def place (r : Registry) (k : Kind) : Registry :=
  ⟨r.dialects.insert k.dialect ((r.table k.dialect).insert k.name k)⟩

def core : Registry := [Kind.eol, .eof, .unknown].foldl place empty

/-- Take a new dialect into use with its kinds, which differ in their names. -/
def adding (r : Registry) (dialect : String) (kinds : List Kind) : Registry :=
  ⟨r.dialects ++ [(dialect, kinds.map fun k => (k.name, k))]⟩

/-- Offer a kind.  Its dialect is in use from then on, whether the kind is taken or
refused. -/
def offer (r : Registry) (k : Kind) : Registry × Option RegistryError :=
  let known := r.opened k.dialect
  if (known.table k.dialect).hasKey k.name then
    (known, some (.duplicateKind k.dialect k.name))
  else (known.place k, none)

def register (r : Registry) (k : Kind) : Except RegistryError Registry :=
  match r.offer k with
  | (r, none) => .ok r
  | (_, some e) => .error e

/-- Register kinds in order up to the first one that is refused.  The kinds
before it stay registered. -/
def registerAll (r : Registry) : List Kind -> Registry × Option RegistryError
  | [] => (r, none)
  | k :: ks =>
      match r.offer k with
      | (r, none) => r.registerAll ks
      | (r, some e) => (r, some e)

/-!
## Looking up and counting
-/

@[simp] theorem table_opened (r : Registry) (dialect other : String) :
    (r.opened dialect).table other = r.table other := by
  unfold opened
  split
  · rfl
  · rename_i hnew
    rw [Mapping.hasKey_eq_isSome, Bool.not_eq_true, Option.isSome_eq_false_iff,
      Option.isNone_iff_eq_none] at hnew
    rw [table, Mapping.get?_insert, table]
    split
    · rename_i hsame
      rw [<- eq_of_beq hsame, hnew]
      rfl
    · rfl

@[simp] theorem get?_opened (r : Registry) (dialect other name : String) :
    (r.opened dialect).get? other name = r.get? other name := by
  rw [get?, table_opened, get?]

@[simp] theorem size_opened (r : Registry) (dialect : String) :
    (r.opened dialect).size = r.size := by
  unfold opened
  split
  · rfl
  · rename_i hnew
    rw [size, Mapping.insert_of_not_hasKey (by simpa using hnew), List.flatMap_append,
      List.length_append]
    exact Nat.add_zero _

theorem get?_place (r : Registry) (k : Kind) (dialect name : String) :
    (r.place k).get? dialect name =
      if k.dialect == dialect && k.name == name then some k else r.get? dialect name := by
  rw [get?, get?, table, place, Mapping.get?_insert, table]
  cases hdialect : k.dialect == dialect with
  | false => rfl
  | true =>
      rw [if_pos rfl, Option.getD_some, Mapping.get?_insert, Bool.true_and, table,
        eq_of_beq hdialect]

theorem size_place {r : Registry} {k : Kind} (h : r.get? k.dialect k.name = none) :
    (r.place k).size = r.size + 1 := by
  have hnew : (r.table k.dialect).hasKey k.name = false := by
    rw [Mapping.hasKey_eq_isSome, <- get?, h]
    rfl
  have hlength := Mapping.length_flatMap_insert r.dialects k.dialect
    ((r.table k.dialect).insert k.name k)
  rw [<- table, Mapping.insert_of_not_hasKey hnew, List.length_append, List.length_singleton]
    at hlength
  rw [size, place, Mapping.insert_of_not_hasKey hnew, size]
  dsimp only
  omega

/-!
## Offering
-/

theorem opened_of_contains {r : Registry} {k : Kind} (h : r.contains k = true) :
    r.opened k.dialect = r := by
  rw [opened, if_pos]
  rw [Mapping.hasKey_eq_isSome]
  rw [contains, get?, table] at h
  cases hfound : r.dialects.get? k.dialect with
  | none =>
      rw [hfound] at h
      cases h
  | some kinds => rfl

theorem offer_of_contains {r : Registry} {k : Kind} (h : r.contains k = true) :
    r.offer k = (r, some (.duplicateKind k.dialect k.name)) := by
  simp only [offer, opened_of_contains h]
  rw [if_pos]
  rw [Mapping.hasKey_eq_isSome]
  exact h

theorem offer_of_not_contains {r : Registry} {k : Kind} (h : r.contains k = false) :
    r.offer k = ((r.opened k.dialect).place k, none) := by
  simp only [offer, table_opened]
  rw [if_neg]
  rw [Mapping.hasKey_eq_isSome, Bool.not_eq_true]
  exact h

theorem register_of_offer_ok {r next : Registry} {k : Kind} (h : r.offer k = (next, none)) :
    r.register k = .ok next := by
  rw [register, h]

theorem register_of_offer_error {r next : Registry} {k : Kind} {e : RegistryError}
    (h : r.offer k = (next, some e)) : r.register k = .error e := by
  rw [register, h]

end Registry

end StyleTokens
