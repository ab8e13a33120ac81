import SchemaTypes.Proofs.Schema.Order
import SchemaTypes.Render.TypeText

namespace SchemaTypes

/-- What a name at the inside of a type stands for. -/
inductive Leaf where
  /-- An entry of the table of scalars. -/
  | scalar (name : Text)
  /-- An enum, perhaps along with the strings of its members. -/
  | enum (name : Text)
  /-- Any other type, under its own name. -/
  | type (name : Text)
  /-- The object types that implement an interface. -/
  | implementors (names : List Text)
  deriving DecidableEq, Repr

/-- The text of what a name stands for. -/
def Leaf.text (s : Settings) : Leaf → Text
  | scalar name => "Scalars['" ++ name ++ "']"
  | enum name =>
    if s.allowEnumStringTypes && s.enumMode == .enum && !s.numericEnums then
      name ++ " | `$\x7b" ++ name ++ "\x7d`"
    else name
  | type name => name
  | implementors names =>
    Text.joined " | " (names ++ if s.futureProofUnions then [Text.catchAllArm names] else [])

/-- What a name at the inside of a type stands for, if anything has that name. -/
def Schema.leaf? (schema : Schema) (s : Settings) (name : Text) : Option Leaf :=
  match schema.find? name with
  | none => if name ∈ Schema.builtInScalars then some (.scalar name) else none
  | some t =>
    match t.kind with
    | .scalar => some (.scalar name)
    | .enum => some (.enum name)
    | .interface =>
      let implementors := (schema.implementationsOf name).map (·.name)
      if s.useImplementingTypes && !implementors.isEmpty then some (.implementors implementors)
      else some (.type name)
    | .object | .union | .inputObject => some (.type name)

variable {schema : Schema} {s : Settings} {name path : Text} {leaf : Leaf}

theorem Leaf.text_implementors {names : List Text} (some : names ≠ []) :
    (implementors names).text s = unionText (s.arms names) := by
  rw [text, unionText, Settings.arms]
  split
  · rw [if_neg (by simp)]
  · rw [List.append_nil]

theorem leafText_eq : leafText schema s name path =
    match schema.leaf? s name with
    | none => .error ⟨name, path⟩
    | some leaf => .ok (leaf.text s) := by
  unfold leafText Schema.leaf?
  cases schema.find? name with
  | none =>
    dsimp only
    split <;> rfl
  | some t =>
    dsimp only
    cases t.kind with
    | interface =>
      dsimp only
      rw [interfaceText]
      split
      · rename_i replaced
        dsimp only
        rw [Leaf.text_implementors (by simp_all)]
      · rfl
    | _ => rfl

theorem leaf?_cases (stands : schema.leaf? s name = some leaf) :
    (leaf = .scalar name ∧ (name ∈ Schema.builtInScalars ∨
      ∃ t, schema.find? name = some t ∧ t.kind = .scalar)) ∨
    ((leaf = .enum name ∨ leaf = .type name) ∧
      ∃ t, schema.find? name = some t ∧ t.kind ≠ .scalar) ∨
    ((schema.implementationsOf name).map (·.name) ≠ [] ∧
      leaf = .implementors ((schema.implementationsOf name).map (·.name))) := by
  unfold Schema.leaf? at stands
  cases found : schema.find? name with
  | none =>
    rw [found] at stands
    dsimp only at stands
    split at stands
    · rename_i builtIn
      cases stands
      exact .inl ⟨rfl, .inl builtIn⟩
    · cases stands
  | some t =>
    rw [found] at stands
    dsimp only at stands
    cases kind : t.kind with
    | scalar =>
      rw [kind] at stands
      cases stands
      exact .inl ⟨rfl, .inr ⟨t, rfl, kind⟩⟩
    | enum =>
      rw [kind] at stands
      cases stands
      exact .inr (.inl ⟨.inl rfl, t, rfl, by simp [kind]⟩)
    | interface =>
      rw [kind] at stands
      dsimp only at stands
      split at stands
      · rename_i replaced
        cases stands
        exact .inr (.inr ⟨by simp_all, rfl⟩)
      · cases stands
        exact .inr (.inl ⟨.inr rfl, t, rfl, by simp [kind]⟩)
    | object | union | inputObject =>
      rw [kind] at stands
      cases stands
      exact .inr (.inl ⟨.inr rfl, t, rfl, by simp [kind]⟩)

end SchemaTypes
