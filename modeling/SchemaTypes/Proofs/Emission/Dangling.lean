import SchemaTypes.Proofs.Emission.Kept

namespace SchemaTypes

/-- A place where a schema refers to a type by its name. -/
inductive Occurrence where
  /-- The type of the field or the argument at a path. -/
  | type (name path : Text)
  /-- A member of a union. -/
  | member (name union : Text)
  deriving DecidableEq, Repr

namespace Occurrence

/-- Whether nothing has the name that a place refers to. A built-in scalar is good enough for a
field, but no member of a union. -/
def dangles (schema : Schema) : Occurrence → Bool
  | type n _ => n ∉ schema.types.map (·.name) ∧ n ∉ Schema.builtInScalars
  | member n _ => n ∉ schema.types.map (·.name)

def error : Occurrence → UnresolvedReference
  | type n path => ⟨n, path⟩
  | member n union => ⟨n, union⟩

end Occurrence

/-- The place of the type of a field. -/
def Field.occurrence (owner : Text) (f : Field) : Occurrence :=
  .type f.type.leaf (owner ++ "." ++ f.name)

namespace TypeDefinition

/-- The types of the fields. -/
def fieldOccurrences (t : TypeDefinition) : List Occurrence :=
  t.fields.map (·.occurrence t.name)

/-- The types of the arguments, field by field. -/
def argumentOccurrences (t : TypeDefinition) : List Occurrence :=
  t.fields.flatMap fun f => f.arguments.map (·.occurrence (t.name ++ "." ++ f.name))

/-- Where a type refers to others: at its fields, then at their arguments, or at its members. -/
def occurrences (t : TypeDefinition) : List Occurrence :=
  match t.kind with
  | .scalar | .enum => []
  | .inputObject => t.fieldOccurrences
  | .object | .interface => t.fieldOccurrences ++ t.argumentOccurrences
  | .union => t.members.map (.member · t.name)

end TypeDefinition

/-- Where the types of a schema refer to others: input objects first, then objects, interfaces and
unions, each kind in the order of names. -/
def Schema.occurrences (schema : Schema) : List Occurrence :=
  ([.inputObject, .object, .interface, .union] : List Kind).flatMap fun k =>
    (Schema.byName (schema.types.filter (·.kind = k))).flatMap (·.occurrences)

variable {schema : Schema} {s : Settings} {e : Emission} {t : TypeDefinition} {f : Field}
  {owner : Text}

/-- The error of the first place that refers to nothing. -/
def firstDangling (schema : Schema) (occurrences : List Occurrence) : Option UnresolvedReference :=
  (occurrences.find? (·.dangles schema)).map (·.error)

theorem firstDangling_append (xs ys : List Occurrence) :
    firstDangling schema (xs ++ ys) = (firstDangling schema xs).or (firstDangling schema ys) := by
  unfold firstDangling
  rw [List.find?_append]
  cases xs.find? (·.dangles schema) <;> rfl

theorem firstDangling_flatMap {α : Type} (xs : List α) (g : α → List Occurrence) :
    firstDangling schema (xs.flatMap g) = xs.findSome? fun x => firstDangling schema (g x) := by
  unfold firstDangling
  rw [List.find?_flatMap, List.map_findSome?]
  rfl

/-- If each step of a traversal fails at its first place that refers to nothing, so does the whole
traversal. -/
theorem error?_mapM_eq_firstDangling {α β : Type} {make : α → Except UnresolvedReference β}
    {g : α → List Occurrence} {xs : List α}
    (each : ∀ x, error? (make x) = firstDangling schema (g x)) :
    error? (xs.mapM make) = firstDangling schema (xs.flatMap g) := by
  rw [error?_mapM, firstDangling_flatMap, funext each]

theorem dangles_type_iff {name path : Text} : (Occurrence.type name path).dangles schema = true ↔
    schema.find? name = none ∧ name ∉ Schema.builtInScalars := by
  rw [Schema.find?_eq_none_iff]
  exact decide_eq_true_iff

theorem dangles_member_iff {name : Text} (union : Text) :
    (Occurrence.member name union).dangles schema = true ↔ schema.find? name = none := by
  rw [Schema.find?_eq_none_iff]
  exact decide_eq_true_iff

theorem firstDangling_singleton (o : Occurrence) :
    firstDangling schema [o] = if o.dangles schema then some o.error else none := by
  unfold firstDangling
  cases dangles : o.dangles schema <;> simp [dangles]

theorem error?_leafText (schema : Schema) (s : Settings) (name path : Text) :
    error? (leafText schema s name path) = firstDangling schema [.type name path] := by
  rw [firstDangling_singleton]
  unfold leafText
  cases found : schema.find? name with
  | none =>
    by_cases builtIn : name ∈ Schema.builtInScalars
    · rw [if_pos builtIn, if_neg fun h => (dangles_type_iff.1 h).2 builtIn]
      rfl
    · rw [if_neg builtIn, if_pos (dangles_type_iff.2 ⟨found, builtIn⟩)]
      rfl
  | some u =>
    have leads : ¬ (Occurrence.type name path).dangles schema = true := fun h => by
      rw [(dangles_type_iff.1 h).1] at found
      cases found
    rw [if_neg leads]
    cases kind : u.kind <;> simp only [kind, error?]

theorem error?_memberText :
    error? (memberText schema s owner f) = firstDangling schema [f.occurrence owner] := by
  unfold memberText typeText
  rw [error?_map, error?_map, error?_leafText]
  rfl

theorem error?_membersText (owner : Text) (fields : List Field) :
    error? (membersText schema s owner fields) =
      firstDangling schema (fields.map (·.occurrence owner)) := by
  unfold membersText
  rw [error?_map, error?_mapM_eq_firstDangling fun f => error?_memberText, List.map_eq_flatMap]

theorem error?_containerDeclaration {kind : DeclarationKind} {hasTypename : Bool} :
    error? (containerDeclaration schema s kind hasTypename t) =
      firstDangling schema t.fieldOccurrences :=
  (error?_map _ _).trans (error?_membersText _ _)

theorem error?_argumentsDeclaration :
    error? (argumentsDeclaration schema s owner f) =
      firstDangling schema (f.arguments.map (·.occurrence (owner ++ "." ++ f.name))) :=
  (error?_map _ _).trans (error?_membersText _ _)

theorem error?_containerWithArguments {kind : DeclarationKind} {hasTypename : Bool} :
    error? (containerWithArguments schema s kind hasTypename t) =
      firstDangling schema (t.fieldOccurrences ++ t.argumentOccurrences) := by
  -- A field without arguments has no declaration for them and no places either.
  have filtered : (t.fields.filter (!·.arguments.isEmpty)).flatMap
      (fun f => f.arguments.map (·.occurrence (t.name ++ "." ++ f.name))) =
        t.argumentOccurrences := by
    unfold TypeDefinition.argumentOccurrences
    induction t.fields with
    | nil => rfl
    | cons f fields ih =>
      rw [List.filter_cons, List.flatMap_cons]
      cases arguments : f.arguments <;> simp_all
  have arguments (container : Declaration) :
      error? ((t.fields.filter (!·.arguments.isEmpty)).mapM (argumentsDeclaration schema s t.name)
        >>= fun arguments => .ok (container :: arguments)) =
          firstDangling schema t.argumentOccurrences := by
    have last (ds : List Declaration) :
        error? (.ok (container :: ds) : Except UnresolvedReference _) = none := rfl
    rw [error?_bind last, error?_mapM_eq_firstDangling fun f => error?_argumentsDeclaration,
      filtered, Option.or_none]
  rw [firstDangling_append, ← error?_containerDeclaration]
  exact error?_bind arguments

theorem error?_unionDeclaration :
    error? (unionDeclaration schema s t) =
      firstDangling schema (t.members.map (.member · t.name)) := by
  have missing : ((Occurrence.dangles schema ·) ∘ (Occurrence.member · t.name)) =
      fun m => (schema.find? m).isNone := by
    funext m
    rw [Bool.eq_iff_iff, Option.isNone_iff_eq_none]
    exact dangles_member_iff t.name
  unfold unionDeclaration firstDangling
  rw [List.find?_map, missing]
  cases t.members.find? (fun m => (schema.find? m).isNone) <;> rfl

theorem error?_declarationsOf :
    error? (declarationsOf schema s t) = firstDangling schema t.occurrences := by
  unfold declarationsOf TypeDefinition.occurrences
  cases t.kind with
  | scalar => rfl
  | enum => rfl
  | inputObject => exact (error?_map _ _).trans error?_containerDeclaration
  | object => exact error?_containerWithArguments
  | interface => exact error?_containerWithArguments
  | union => exact (error?_map _ _).trans error?_unionDeclaration

theorem flatMap_occurrences_ofKind (schema : Schema) {k : Kind} (h : k = .scalar ∨ k = .enum) :
    (schema.ofKind k).flatMap (·.occurrences) = [] := by
  rw [List.flatMap_eq_nil_iff]
  intro t mem
  have kind := (Schema.mem_ofKind.1 mem).2
  rcases h with rfl | rfl <;> rw [TypeDefinition.occurrences, kind]

theorem occurrences_typesInOrder :
    (typesInOrder schema s).flatMap (·.occurrences) =
      if s.typeFilter = .all then schema.occurrences else [] := by
  have scalars := flatMap_occurrences_ofKind schema (.inl rfl)
  have enums := flatMap_occurrences_ofKind schema (.inr rfl)
  unfold typesInOrder Schema.occurrences Kind.declarationOrder
  simp only [← Schema.ofKind_eq_byName, List.flatMap_assoc]
  cases s.typeFilter <;>
    simp [TypeFilter.permits, List.flatMap_cons, List.filter_cons, scalars, enums]

/-- What is wrong with the declarations of a schema is its first reference that leads nowhere, if
the filter lets all types through. -/
theorem error?_typeDeclarations (schema : Schema) (s : Settings) :
    error? (typeDeclarations schema s) =
      if s.typeFilter = .all then firstDangling schema schema.occurrences else none := by
  rw [typeDeclarations_eq, error?_map, error?_mapM_eq_firstDangling fun t => error?_declarationsOf,
    occurrences_typesInOrder]
  split <;> rfl

theorem Schema.mem_occurrences {o : Occurrence} :
    o ∈ schema.occurrences ↔ ∃ t ∈ schema.types, o ∈ t.occurrences := by
  unfold Schema.occurrences
  simp only [← Schema.ofKind_eq_byName, List.mem_flatMap, Schema.mem_ofKind]
  constructor
  · rintro ⟨k, -, t, ⟨mem, -⟩, inside⟩
    exact ⟨t, mem, inside⟩
  · rintro ⟨t, mem, inside⟩
    refine ⟨t.kind, ?_, t, ⟨mem, rfl⟩, inside⟩
    unfold TypeDefinition.occurrences at inside
    revert inside
    cases t.kind <;> simp

theorem exists_first_iff :
    (∃ o, schema.occurrences.find? (·.dangles schema) = some o) ↔
      ∃ t ∈ schema.types, ∃ o ∈ t.occurrences, o.dangles schema = true := by
  rw [← Option.isSome_iff_exists, List.find?_isSome]
  simp only [Schema.mem_occurrences]
  constructor
  · rintro ⟨o, ⟨t, mem, inside⟩, dangles⟩
    exact ⟨t, mem, o, inside, dangles⟩
  · rintro ⟨t, mem, o, inside, dangles⟩
    exact ⟨o, ⟨t, mem, inside⟩, dangles⟩

theorem emit_eq_error_iff_first {u : UnresolvedReference} : emit schema s = .error u ↔
    s.typeFilter = .all ∧
      ∃ o, schema.occurrences.find? (·.dangles schema) = some o ∧ o.error = u := by
  rw [emit_eq_error, ← error?_eq_some_iff, error?_typeDeclarations]
  split
  · rename_i all
    rw [firstDangling, Option.map_eq_some_iff, and_iff_right all]
  · rename_i filtered
    simp [filtered]

theorem dangles_of_emit (h : emit schema s = .ok e) (all : s.typeFilter = .all) {o : Occurrence}
    (mem : t ∈ schema.types) (inside : o ∈ t.occurrences) : o.dangles schema = false := by
  by_contra dangles
  have some : ∃ t ∈ schema.types, ∃ o ∈ t.occurrences, o.dangles schema = true :=
    ⟨t, mem, o, inside, by simpa using dangles⟩
  obtain ⟨first, found⟩ := exists_first_iff.2 some
  have failed : emit schema s = .error first.error :=
    emit_eq_error_iff_first.2 ⟨all, first, found, rfl⟩
  rw [h] at failed
  cases failed

/-- **A reference that leads nowhere ends a run exactly if it is written.** A run ends with an error
exactly if the filter lets all types through and some field, argument or member of a union refers to
nothing; the error is that of the first such place, in the order in which declarations are made. -/
theorem emit_eq_error_iff_dangling (schema : Schema) (s : Settings) :
    ((∃ u, emit schema s = .error u) ↔
      s.typeFilter = .all ∧ ∃ t ∈ schema.types, ∃ o ∈ t.occurrences, o.dangles schema = true) ∧
    ∀ u, emit schema s = .error u ↔
      s.typeFilter = .all ∧
        ∃ o, schema.occurrences.find? (·.dangles schema) = some o ∧ o.error = u := by
  refine ⟨?_, fun u => emit_eq_error_iff_first⟩
  rw [← exists_first_iff]
  constructor
  · rintro ⟨u, h⟩
    obtain ⟨all, o, found, -⟩ := emit_eq_error_iff_first.1 h
    exact ⟨all, o, found⟩
  · rintro ⟨all, o, found⟩
    exact ⟨o.error, emit_eq_error_iff_first.2 ⟨all, o, found, rfl⟩⟩

end SchemaTypes
