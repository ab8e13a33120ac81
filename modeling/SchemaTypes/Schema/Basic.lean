import SchemaTypes.Text.Basic

namespace SchemaTypes

/-- A reference to a type, with a mark on each level that says whether it may be null. -/
inductive TypeRef where
  | named (name : Text) (nullable : Bool)
  | list (inner : TypeRef) (nullable : Bool)
  deriving DecidableEq, Repr, Inhabited

namespace TypeRef

/-- Whether the outermost level may be null. -/
def nullable : TypeRef → Bool
  | named _ n => n
  | list _ n => n

/-- The reference with its outermost level required. -/
def required : TypeRef → TypeRef
  | named name _ => named name false
  | list inner _ => list inner false

/-- The name inside all lists. -/
def leaf : TypeRef → Text
  | named name _ => name
  | list inner _ => inner.leaf

@[simp] theorem nullable_required (r : TypeRef) : r.required.nullable = false := by
  cases r <;> rfl

@[simp] theorem leaf_required (r : TypeRef) : r.required.leaf = r.leaf := by
  cases r <;> rfl

/-- The mark behind a level. -/
def levelMark (nullable : Bool) : Text := if nullable then [] else "!"

/-- The notation of a reference, without blanks. -/
def text : TypeRef → Text
  | named name n => name ++ levelMark n
  | list inner n => "[" ++ inner.text ++ "]" ++ levelMark n

end TypeRef

inductive Kind where
  | scalar
  | enum
  | object
  | interface
  | union
  | inputObject
  deriving DecidableEq, Repr

def Kind.text : Kind → Text
  | scalar => "scalar"
  | enum => "enum"
  | object => "object"
  | interface => "interface"
  | union => "union"
  | inputObject => "inputObject"

/-- Where a field stands. -/
inductive Position where
  /-- A field of an object or interface type. -/
  | output
  /-- A field of an input object. -/
  | inputField
  /-- An argument of a field. -/
  | argument
  deriving DecidableEq, Repr

/-- Whether values at a position are given by the caller. -/
def Position.isInput : Position → Bool
  | output => false
  | inputField => true
  | argument => true

/-- A field or an argument. -/
structure Field where
  name : Text
  type : TypeRef
  position : Position
  description : Text
  /-- The literal of a default value, in input positions. -/
  default? : Option Text
  /-- The arguments of an output field. -/
  arguments : List Field
  deriving Repr

structure EnumValue where
  name : Text
  /-- What stands for the value in declarations; an empty literal stands for the name. -/
  literal : Text
  description : Text
  deriving DecidableEq, Repr

/-- A named type. Only the lists that go with its kind are meant to hold anything. -/
structure TypeDefinition where
  kind : Kind
  name : Text
  description : Text := []
  /-- The fields of an object, interface or input object. -/
  fields : List Field := []
  /-- The values of an enum. -/
  values : List EnumValue := []
  /-- The names of the members of a union. -/
  members : List Text := []
  /-- The names of the interfaces of an object. -/
  interfaces : List Text := []
  deriving Repr

/-- Type definitions with distinct names, none of them empty. -/
structure Schema where
  types : List TypeDefinition
  named : ∀ t ∈ types, t.name ≠ []
  distinct : (types.map (·.name)).Nodup

/-- Why a definition cannot be added to a schema. -/
inductive SchemaError where
  | unnamed
  | duplicate (name : Text)
  deriving DecidableEq, Repr

def SchemaError.message : SchemaError → Text
  | unnamed => "Schema type without a name"
  | duplicate name => Text.untilNul ("Duplicate schema type '" ++ name ++ "'")

namespace Schema

def empty : Schema := ⟨[], by simp, by simp⟩

/-- The definition of a name. -/
def find? (s : Schema) (name : Text) : Option TypeDefinition := s.types.find? (·.name = name)

/-- The schema with one more type at the end. -/
def add (s : Schema) (t : TypeDefinition) : Except SchemaError Schema :=
  if named : t.name = [] then .error .unnamed
  else if fresh : t.name ∈ s.types.map (·.name) then .error (.duplicate t.name)
  else .ok {
    types := s.types ++ [t]
    named := by
      intro u hu
      rcases List.mem_append.1 hu with old | new
      · exact s.named u old
      · rwa [List.mem_singleton.1 new]
    distinct := by
      rw [List.map_append, List.nodup_append]
      refine ⟨s.distinct, by simp, ?_⟩
      intro a ha b hb eq
      simp only [List.map_cons, List.map_nil, List.mem_singleton] at hb
      exact fresh (hb ▸ eq ▸ ha) }

theorem types_of_add {s next : Schema} {t : TypeDefinition} (h : s.add t = .ok next) :
    next.types = s.types ++ [t] := by
  unfold add at h
  split at h
  · cases h
  · split at h
    · cases h
    · cases h
      rfl

/-- The schema after adding a type, which may be refused. -/
def attempt (s : Schema) (t : TypeDefinition) : Schema :=
  match s.add t with
  | .ok next => next
  | .error _ => s

/-- The schema with the given types, added in order. -/
def ofList (types : List TypeDefinition) : Except SchemaError Schema :=
  types.foldlM add empty

/-- Inserts a definition before the first one whose name is not smaller. -/
def insertByName (t : TypeDefinition) : List TypeDefinition → List TypeDefinition
  | [] => [t]
  | u :: rest => if u.name < t.name then u :: insertByName t rest else t :: u :: rest

theorem mem_insertByName {t u : TypeDefinition} {ts : List TypeDefinition} :
    u ∈ insertByName t ts ↔ u = t ∨ u ∈ ts := by
  induction ts with
  | nil => simp [insertByName]
  | cons v rest ih =>
    unfold insertByName
    split
    · rw [List.mem_cons, ih, List.mem_cons]
      exact or_left_comm
    · exact List.mem_cons

/-- The definitions of one kind, in increasing byte order of their names. -/
def ofKind (s : Schema) (k : Kind) : List TypeDefinition :=
  (s.types.filter (·.kind = k)).foldr insertByName []

theorem mem_ofKind {s : Schema} {k : Kind} {t : TypeDefinition} :
    t ∈ s.ofKind k ↔ t ∈ s.types ∧ t.kind = k := by
  have sorted (ts : List TypeDefinition) : t ∈ ts.foldr insertByName [] ↔ t ∈ ts := by
    induction ts with
    | nil => rfl
    | cons u rest ih => rw [List.foldr_cons, mem_insertByName, ih, List.mem_cons]
  simp [ofKind, sorted]

/-- The object types that list an interface, in increasing byte order of their names. -/
def implementationsOf (s : Schema) (interface : Text) : List TypeDefinition :=
  (s.ofKind .object).filter (interface ∈ ·.interfaces)

/-- The scalar types that every schema has without defining them. -/
def builtInScalars : List Text := ["ID", "String", "Boolean", "Int", "Float"]

end Schema

end SchemaTypes
