import SchemaTypes.Proofs.Emission.Sequence
import SchemaTypes.Proofs.Schema.Order

namespace SchemaTypes

/-- What is expected of a declaration: all but its text. -/
structure Entry where
  name : Text
  kind : DeclarationKind
  wrappers : AliasSet
  deriving DecidableEq, Repr

def Declaration.entry (d : Declaration) : Entry := ⟨d.name, d.kind, d.wrappers⟩

def Entry.avoids (x : Entry) (aliases : AliasSet) : Bool := x.wrappers.toList.all (· ∉ aliases)

/-- Whether some level of a reference may be null. -/
def TypeRef.hasNullable : TypeRef → Bool
  | named _ n => n
  | list inner n => n || inner.hasNullable

def Field.aliases (s : Settings) (f : Field) : AliasSet := .ofFun fun
  | .maybe => f.position == .output && f.type.hasNullable
  | .inputMaybe => f.position != .output && f.type.hasNullable
  | .fieldWrapper => f.position == .output && s.wrapFieldDefinitions
  | .entireFieldWrapper => f.position == .output && s.wrapEntireFieldDefinitions

def aliasesOf (s : Settings) (fields : List Field) : AliasSet := .unions (fields.map (·.aliases s))

/-- The small letters, each with its capital. -/
def capitals : List (UInt8 × UInt8) :=
  ("abcdefghijklmnopqrstuvwxyz" : Text).zip "ABCDEFGHIJKLMNOPQRSTUVWXYZ"

/-- The name for the arguments of a field: the name of its owner, that of the field with a capital
in front if it starts with a small letter, and `Args`. -/
def argumentsName (owner : Text) : Text → Text
  | [] => owner ++ "Args"
  | b :: rest => owner ++ (capitals.lookup b).getD b :: rest ++ "Args"

/-- The entries for the arguments of the fields of a type. -/
def TypeDefinition.argumentsEntries (s : Settings) (t : TypeDefinition) : List Entry :=
  (t.fields.filter (!·.arguments.isEmpty)).map fun f =>
    ⟨argumentsName t.name f.name, .arguments, aliasesOf s f.arguments⟩

def TypeDefinition.entries (s : Settings) (t : TypeDefinition) : List Entry :=
  match t.kind with
  | .scalar => []
  | .enum => [⟨t.name, .enum, .empty⟩]
  | .inputObject => [⟨t.name, .inputObject, aliasesOf s t.fields⟩]
  | .object => ⟨t.name, .object, aliasesOf s t.fields⟩ :: t.argumentsEntries s
  | .interface => ⟨t.name, .interface, aliasesOf s t.fields⟩ :: t.argumentsEntries s
  | .union => [⟨t.name, .union, .empty⟩]

/-- The entries for the types of a kind. All scalars share one. -/
def kindEntries (schema : Schema) (s : Settings) : Kind → List Entry
  | .scalar => [⟨"Scalars", .scalars, .empty⟩]
  | k => (Schema.byName (schema.types.filter (·.kind = k))).flatMap (·.entries s)

/-- The entries for all declarations that a schema should have. -/
def inventory (schema : Schema) (s : Settings) : List Entry :=
  (([.scalar, .enum, .inputObject, .object, .interface, .union] : List Kind).filter
    s.typeFilter.permits).flatMap (kindEntries schema s)

theorem Rendered.mem_used_wrappedIf {condition : Bool} {a b : Alias} {r : Rendered} :
    b ∈ (r.wrappedIf condition a).used ↔ (condition = true ∧ b = a) ∨ b ∈ r.used := by
  cases condition <;> simp [wrappedIf, wrapped]

variable {schema : Schema} {s : Settings} {t : TypeDefinition} {ds : List Declaration}
  {d : Declaration} {f : Field} {fields : List Field} {owner : Text}

theorem mem_used_levelsText {p : Position} {leaf : Text} {ref : TypeRef} {a : Alias} :
    a ∈ (levelsText s p leaf ref).used ↔
      (ref.hasNullable = true ∧ a = p.nullableAlias) ∨
      ((p == .output && s.wrapFieldDefinitions) = true ∧ a = .fieldWrapper) := by
  induction ref with
  | named name nullable =>
    rw [levelsText, Rendered.mem_used_wrappedIf, Rendered.mem_used_wrappedIf]
    simp [TypeRef.hasNullable]
  | list inner nullable ih =>
    rw [levelsText, Rendered.mem_used_wrappedIf]
    show _ ∨ a ∈ (levelsText s p leaf inner).used ↔ _
    rw [ih, TypeRef.hasNullable, Bool.or_eq_true, or_and_right, or_assoc]

theorem used_of_memberText {r : Rendered} (h : memberText schema s owner f = .ok r) :
    r.used = f.aliases s := by
  obtain ⟨type, made, rfl⟩ := map_eq_ok.1 h
  obtain ⟨leaf, -, rfl⟩ := map_eq_ok.1 made
  apply AliasSet.ext_mem
  intro a
  rw [Rendered.mem_used_wrappedIf, mem_used_levelsText, Field.aliases, AliasSet.mem_ofFun]
  cases position : f.position <;> cases a <;> simp [Position.nullableAlias]

theorem used_of_membersText {r : Rendered} (h : membersText schema s owner fields = .ok r) :
    r.used = aliasesOf s fields := by
  obtain ⟨members, made, rfl⟩ := map_eq_ok.1 h
  exact congrArg AliasSet.unions (map_of_mapM (fun _ _ made => used_of_memberText made) made)

theorem entry_of_containerDeclaration {kind : DeclarationKind} {hasTypename : Bool}
    (h : containerDeclaration schema s kind hasTypename t = .ok d) :
    d.entry = ⟨t.name, kind, aliasesOf s t.fields⟩ := by
  obtain ⟨members, made, rfl⟩ := map_eq_ok.1 h
  rw [← used_of_membersText made]
  rfl

theorem lookup_capitals (b : UInt8) : (capitals.lookup b).getD b =
    if 'a'.toUInt8 ≤ b && b ≤ 'z'.toUInt8 then b - 32 else b := by
  have each : ∀ n : Fin 256, (capitals.lookup (.ofFin n)).getD (.ofFin n) =
      if 'a'.toUInt8 ≤ .ofFin n && .ofFin n ≤ 'z'.toUInt8 then .ofFin n - 32 else .ofFin n := by
    decide +kernel
  exact each b.toFin

theorem argumentsName_eq (owner field : Text) :
    owner ++ Text.capitalized field ++ "Args" = argumentsName owner field := by
  cases field with
  | nil => rw [Text.capitalized, argumentsName, List.append_nil]
  | cons b rest => rw [Text.capitalized, argumentsName, lookup_capitals]

theorem entry_of_argumentsDeclaration (h : argumentsDeclaration schema s owner f = .ok d) :
    d.entry = ⟨argumentsName owner f.name, .arguments, aliasesOf s f.arguments⟩ := by
  obtain ⟨members, made, rfl⟩ := map_eq_ok.1 h
  rw [← used_of_membersText made, ← argumentsName_eq]
  rfl

theorem entries_of_containerWithArguments {kind : DeclarationKind} {hasTypename : Bool}
    (h : containerWithArguments schema s kind hasTypename t = .ok ds) :
    ds.map (·.entry) = ⟨t.name, kind, aliasesOf s t.fields⟩ :: t.argumentsEntries s := by
  obtain ⟨d, container, more, arguments, rfl⟩ := containerWithArguments_eq_ok.1 h
  rw [List.map_cons, entry_of_containerDeclaration container]
  exact congrArg _ (map_of_mapM (fun _ _ made => entry_of_argumentsDeclaration made) arguments)

theorem entry_of_unionDeclaration (h : unionDeclaration schema s t = .ok d) :
    d.entry = ⟨t.name, .union, .empty⟩ := by
  unfold unionDeclaration at h
  split at h
  · cases h
  · cases h
    rfl

/-- The declarations of a type are those that it should have. -/
theorem entries_of_declarationsOf (h : declarationsOf schema s t = .ok ds) :
    ds.map (·.entry) = t.entries s := by
  unfold declarationsOf at h
  unfold TypeDefinition.entries
  cases kind : t.kind with
  | scalar =>
    rw [kind] at h
    cases h
    rfl
  | enum =>
    rw [kind] at h
    cases h
    rfl
  | inputObject =>
    rw [kind] at h
    obtain ⟨d, made, rfl⟩ := map_eq_ok.1 h
    rw [List.map_singleton, entry_of_containerDeclaration made]
  | object =>
    rw [kind] at h
    exact entries_of_containerWithArguments h
  | interface =>
    rw [kind] at h
    exact entries_of_containerWithArguments h
  | union =>
    rw [kind] at h
    obtain ⟨d, made, rfl⟩ := map_eq_ok.1 h
    rw [List.map_singleton, entry_of_unionDeclaration made]

theorem kind_of_entries {x : Entry} (mem : x ∈ t.entries s) :
    x.kind ≠ .wrapperAlias ∧ x.kind ≠ .scalars := by
  have arguments : ∀ x ∈ t.argumentsEntries s, x.kind ≠ .wrapperAlias ∧ x.kind ≠ .scalars := by
    intro x mem
    obtain ⟨f, -, rfl⟩ := List.mem_map.1 mem
    simp
  have all : ∀ x ∈ t.entries s, x.kind ≠ .wrapperAlias ∧ x.kind ≠ .scalars := by
    unfold TypeDefinition.entries
    cases t.kind
    case object | interface => simpa using arguments
    all_goals simp
  exact all x mem

theorem kind_ne_scalars {types : List TypeDefinition} {lists : List (List Declaration)}
    (h : types.mapM (declarationsOf schema s) = .ok lists) :
    ∀ d ∈ lists.flatten, d.kind ≠ .scalars := by
  intro d mem
  obtain ⟨ds, mem', inside⟩ := List.mem_flatten.1 mem
  obtain ⟨t, -, made⟩ := exists_of_mem_mapM h mem'
  have expected : d.entry ∈ t.entries s :=
    entries_of_declarationsOf made ▸ List.mem_map_of_mem inside
  exact (kind_of_entries expected).2

theorem kindEntries_eq {k : Kind} (other : k ≠ .scalar) :
    kindEntries schema s k = (schema.ofKind k).flatMap (·.entries s) := by
  rw [Schema.ofKind_eq_byName]
  cases k
  case scalar => exact absurd rfl other
  all_goals rfl

theorem entries_scalars : (schema.ofKind .scalar).flatMap (·.entries s) = [] := by
  rw [List.flatMap_eq_nil_iff]
  intro t mem
  rw [TypeDefinition.entries, (Schema.mem_ofKind.1 mem).2]

theorem inventory_eq : inventory schema s =
    (scalarTables schema s).map (·.entry) ++ (typesInOrder schema s).flatMap (·.entries s) := by
  let others : List Kind := [.enum, .inputObject, .object, .interface, .union]
  have rest : (others.filter s.typeFilter.permits).flatMap (kindEntries schema s) =
      ((others.filter s.typeFilter.permits).flatMap schema.ofKind).flatMap (·.entries s) := by
    rw [List.flatMap_assoc]
    refine List.flatMap_congr fun k mem => kindEntries_eq ?_
    rintro rfl
    exact absurd (List.mem_filter.1 mem).1 (by decide)
  have first : Kind.declarationOrder = .scalar :: others := rfl
  unfold inventory typesInOrder scalarTables
  rw [first, List.filter_cons]
  split
  · rw [List.flatMap_cons, List.flatMap_cons, List.flatMap_append, entries_scalars, rest]
    rfl
  · exact rest

/-- The declarations of a schema are those of its inventory, in the same order. -/
theorem entries_of_typeDeclarations (h : typeDeclarations schema s = .ok ds) :
    ds.map (·.entry) = inventory schema s := by
  rw [typeDeclarations_eq] at h
  obtain ⟨lists, made, rfl⟩ := map_eq_ok.1 h
  rw [inventory_eq, List.map_append, List.map_flatten, List.flatMap_def,
    map_of_mapM (fun _ _ made => entries_of_declarationsOf made) made]

theorem kind_ne_wrapperAlias (h : typeDeclarations schema s = .ok ds) :
    ∀ d ∈ ds, d.kind ≠ .wrapperAlias := by
  intro d mem
  have expected : d.entry ∈ inventory schema s :=
    entries_of_typeDeclarations h ▸ List.mem_map_of_mem mem
  rw [inventory_eq, List.mem_append] at expected
  rcases expected with table | type
  · unfold scalarTables at table
    split at table
    · have kind : d.kind = .scalars := congrArg Entry.kind (List.mem_singleton.1 table)
      simp [kind]
    · cases table
  · obtain ⟨t, -, mem⟩ := List.mem_flatMap.1 type
    exact (kind_of_entries mem).1

end SchemaTypes
