import SchemaTypes.Change
import SchemaTypes.Schema.Basic

/-!
# Catalogs

A catalog holds types in the order in which they were added and beside them the position of each
name, so that a type is found without a search. Both grow in place.
-/

namespace SchemaTypes

/-- Types in the order in which they were added, and the position of each name. -/
structure Catalog where
  types : List TypeDefinition := []
  positions : List (Text × Nat) := []
  deriving Repr

namespace Catalog

/-- Adds a type at the end, and its name to the index. -/
def add (t : TypeDefinition) : Change Catalog SchemaError Unit := do
  if t.name = [] then throw .unnamed
  if ((← get).positions.lookup t.name).isSome then throw (.duplicate t.name)
  modify fun c => { c with positions := c.positions ++ [(t.name, c.types.length)] }
  modify fun c => { c with types := c.types ++ [t] }

/-- The type at the position of a name, if the name has one. -/
def find? (c : Catalog) (name : Text) : Option TypeDefinition :=
  match c.positions.lookup name with
  | none => none
  | some position => c.types[position]?

/-- The types of one kind, sorted by their names in byte order. -/
def ofKind (c : Catalog) (k : Kind) : List TypeDefinition :=
  (c.types.filter (·.kind = k)).mergeSort fun t u => t.name ≤ u.name

/-- The object types that list an interface, sorted by their names in byte order. -/
def implementationsOf (c : Catalog) (interface : Text) : List TypeDefinition :=
  (c.ofKind .object).filter (interface ∈ ·.interfaces)

/-- The catalog after some types were added to an empty one. Those that are refused are passed
over. -/
def holding (types : List TypeDefinition) : Catalog :=
  types.foldl (fun c t => (add t).after c) {}

end Catalog

end SchemaTypes
