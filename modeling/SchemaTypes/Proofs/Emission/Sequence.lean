import SchemaTypes.Proofs.Results
import SchemaTypes.Render.Types

/-!
# Declarations, type by type

The declarations of a schema are the table of scalars and then those of each type, in one sequence
of types that ends at the first type with a reference that leads nowhere.
-/

namespace SchemaTypes

/-- The types that the filter lets through, in the order of their declarations. -/
def typesInOrder (schema : Schema) (s : Settings) : List TypeDefinition :=
  (Kind.declarationOrder.filter s.typeFilter.permits).flatMap schema.ofKind

/-- The declarations of one type. A scalar has none of its own. -/
def declarationsOf (schema : Schema) (s : Settings) (t : TypeDefinition) :
    Except UnresolvedReference (List Declaration) :=
  match t.kind with
  | .scalar => .ok []
  | .enum => .ok [enumDeclaration s t]
  | .inputObject => (containerDeclaration schema s .inputObject false t).map ([·])
  | .object => containerWithArguments schema s .object (!s.skipTypename) t
  | .interface => containerWithArguments schema s .interface false t
  | .union => (unionDeclaration schema s t).map ([·])

/-- The table of scalars, if the filter lets scalars through. -/
def scalarTables (schema : Schema) (s : Settings) : List Declaration :=
  if s.typeFilter.permits .scalar then [scalarsDeclaration schema s] else []

variable {schema : Schema} {s : Settings}

theorem kindDeclarations_eq {k : Kind} (other : k ≠ .scalar) :
    kindDeclarations schema s k =
      ((schema.ofKind k).mapM (declarationsOf schema s)).map List.flatten := by
  have each {f : TypeDefinition → Except UnresolvedReference (List Declaration)}
      (same : ∀ t, t.kind = k → declarationsOf schema s t = f t) :
      (schema.ofKind k).mapM (declarationsOf schema s) = (schema.ofKind k).mapM f :=
    mapM_congr fun t mem => same t (Schema.mem_ofKind.1 mem).2
  cases k with
  | scalar => exact absurd rfl other
  | enum =>
    rw [each (f := fun t => (Except.ok (enumDeclaration s t)).map ([·]))
      fun t kind => by rw [declarationsOf, kind]; rfl, mapM_singletons]
    exact (List.mapM_pure (m := Except UnresolvedReference)).symm
  | inputObject =>
    rw [each fun t kind => by rw [declarationsOf, kind], mapM_singletons]
    rfl
  | object =>
    rw [each fun t kind => by rw [declarationsOf, kind]]
    rfl
  | interface =>
    rw [each fun t kind => by rw [declarationsOf, kind]]
    rfl
  | union =>
    rw [each fun t kind => by rw [declarationsOf, kind], mapM_singletons]
    rfl

theorem mapM_scalars (schema : Schema) (s : Settings) :
    ((schema.ofKind .scalar).mapM (declarationsOf schema s)).map List.flatten = .ok [] := by
  rw [mapM_congr (g := fun _ => pure [])
    fun t mem => by rw [declarationsOf, (Schema.mem_ofKind.1 mem).2]; rfl, List.mapM_pure]
  simp [pure, Except.pure, Except.map]

/-- **The declarations of a schema, type by type**: the table of scalars, then those of each type.
What is wrong with the first type that has a reference to nothing is wrong with the schema. -/
theorem typeDeclarations_eq (schema : Schema) (s : Settings) :
    typeDeclarations schema s = ((typesInOrder schema s).mapM (declarationsOf schema s)).map
      fun lists => scalarTables schema s ++ lists.flatten := by
  let others : List Kind := [.enum, .inputObject, .object, .interface, .union]
  have rest : ((others.filter s.typeFilter.permits).mapM (kindDeclarations schema s)).map
      List.flatten = (((others.filter s.typeFilter.permits).flatMap schema.ofKind).mapM
        (declarationsOf schema s)).map List.flatten := by
    refine mapM_flatMap fun k mem => kindDeclarations_eq ?_
    rintro rfl
    exact absurd (List.mem_filter.1 mem).1 (by decide)
  have first : Kind.declarationOrder = .scalar :: others := rfl
  unfold typeDeclarations typesInOrder scalarTables
  rw [first, List.filter_cons]
  split
  · obtain ⟨lists, scalars, none⟩ := map_eq_ok.1 (mapM_scalars schema s)
    rw [List.mapM_cons, List.flatMap_cons, List.mapM_append, scalars]
    generalize (others.filter s.typeFilter.permits).mapM (kindDeclarations schema s) = left
      at rest ⊢
    generalize ((others.filter s.typeFilter.permits).flatMap schema.ofKind).mapM
      (declarationsOf schema s) = right at rest ⊢
    have same (later : List (List Declaration)) : (lists ++ later).flatten = later.flatten := by
      rw [List.flatten_append, none, List.nil_append]
    calc _ = (left.map List.flatten).map ([scalarsDeclaration schema s] ++ ·) := by
          cases left <;> rfl
      _ = (right.map List.flatten).map ([scalarsDeclaration schema s] ++ ·) := by rw [rest]
      _ = _ := by
          cases right with
          | error e => rfl
          | ok later =>
            exact congrArg Except.ok
              (congrArg ([scalarsDeclaration schema s] ++ ·) (same later).symm)
  · rw [rest]
    rfl

theorem containerWithArguments_eq_ok {kind : DeclarationKind} {hasTypename : Bool}
    {t : TypeDefinition} {ds : List Declaration} :
    containerWithArguments schema s kind hasTypename t = .ok ds ↔
      ∃ d, containerDeclaration schema s kind hasTypename t = .ok d ∧
      ∃ more, (t.fields.filter (!·.arguments.isEmpty)).mapM
        (argumentsDeclaration schema s t.name) = .ok more ∧ ds = d :: more := by
  unfold containerWithArguments
  simp only [bind_eq_ok, pure, Except.pure, Except.ok.injEq]
  exact exists_congr fun d => and_congr_right fun _ => exists_congr fun more =>
    and_congr_right fun _ => eq_comm

/-! ## Two runs side by side

Types are written without regard to the bodies of the aliases, the filter, the qualifier of
declarations, descriptions and optional members, so the second run may have others. -/

section

variable {avoidOptionals : AvoidOptionals} {typeFilter : TypeFilter}
  {noExport disableDescriptions : Bool} {bodies : PerAlias Text}

theorem levelsText_with (p : Position) (leaf : Text) (ref : TypeRef) :
    levelsText { s with avoidOptionals, typeFilter, noExport, disableDescriptions, bodies } p leaf
      ref = levelsText s p leaf ref := by
  induction ref with
  | named name nullable => rfl
  | list inner nullable ih =>
    rw [levelsText, levelsText, ih]

theorem typeText_with (schema : Schema) (p : Position) (ref : TypeRef) (referencedFrom : Text) :
    typeText schema { s with avoidOptionals, typeFilter, noExport, disableDescriptions, bodies } p
      ref referencedFrom = typeText schema s p ref referencedFrom := by
  simp only [typeText, levelsText_with]
  rfl

end

/-! The bodies of the aliases and the filter show in no declaration at all. -/

section

variable {R : ResultRelation UnresolvedReference} {schema' : Schema} {bodies : PerAlias Text}
  {typeFilter : TypeFilter}

variable (leaf : ∀ name referencedFrom,
    R.Rel (leafText schema s name referencedFrom) (leafText schema' s name referencedFrom))

include leaf

theorem typeText_rel (p : Position) (ref : TypeRef) (referencedFrom : Text) :
    R.Rel (typeText schema s p ref referencedFrom)
      (typeText schema' { s with bodies, typeFilter } p ref referencedFrom) := by
  simp only [typeText, levelsText_with]
  exact (leaf _ _).map _

theorem memberText_rel (owner : Text) (f : Field) :
    R.Rel (memberText schema s owner f)
      (memberText schema' { s with bodies, typeFilter } owner f) :=
  (typeText_rel leaf _ _ _).map _

theorem membersText_rel (owner : Text) (fields : List Field) :
    R.Rel (membersText schema s owner fields)
      (membersText schema' { s with bodies, typeFilter } owner fields) :=
  (ResultRelation.rel_mapM fun f _ => memberText_rel leaf owner f).map _

theorem containerDeclaration_rel (kind : DeclarationKind) (hasTypename : Bool)
    (t : TypeDefinition) :
    R.Rel (containerDeclaration schema s kind hasTypename t)
      (containerDeclaration schema' { s with bodies, typeFilter } kind hasTypename t) :=
  (membersText_rel leaf _ _).map _

theorem argumentsDeclaration_rel (owner : Text) (f : Field) :
    R.Rel (argumentsDeclaration schema s owner f)
      (argumentsDeclaration schema' { s with bodies, typeFilter } owner f) :=
  (membersText_rel leaf _ _).map _

theorem containerWithArguments_rel (kind : DeclarationKind) (hasTypename : Bool)
    (t : TypeDefinition) :
    R.Rel (containerWithArguments schema s kind hasTypename t)
      (containerWithArguments schema' { s with bodies, typeFilter } kind hasTypename t) := by
  refine R.bind (containerDeclaration_rel leaf kind hasTypename t) fun container => ?_
  refine R.bind (ResultRelation.rel_mapM fun f _ => ?_) fun arguments => R.refl _
  exact argumentsDeclaration_rel leaf t.name f

/-- What two runs declare for a type compares as what they write for a name. -/
theorem declarationsOf_rel {t : TypeDefinition}
    (union : R.Rel (unionDeclaration schema s t) (unionDeclaration schema' s t)) :
    R.Rel (declarationsOf schema s t)
      (declarationsOf schema' { s with bodies, typeFilter } t) := by
  unfold declarationsOf
  cases t.kind with
  | scalar => exact R.refl _
  | enum => exact R.refl _
  | inputObject => exact (containerDeclaration_rel leaf _ _ _).map _
  | object => exact containerWithArguments_rel leaf _ _ _
  | interface => exact containerWithArguments_rel leaf _ _ _
  | union => exact union.map _

end

theorem declarationsOf_with (schema : Schema) (s : Settings) (bodies : PerAlias Text)
    (typeFilter : TypeFilter) :
    declarationsOf schema { s with bodies, typeFilter } = declarationsOf schema s :=
  funext fun _ => (declarationsOf_rel (R := .equal _) (fun _ _ => rfl) rfl).symm

end SchemaTypes
