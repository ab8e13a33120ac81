import SchemaTypes.Proofs.Emission.Kept
import SchemaTypes.Proofs.Emission.ScalarTable

namespace SchemaTypes

/-- A field without descriptions, neither its own nor of its arguments. -/
def Field.undescribed : Field → Field
  | ⟨name, type, position, _, default?, arguments⟩ =>
    ⟨name, type, position, [], default?, arguments.map undescribed⟩

def EnumValue.undescribed (v : EnumValue) : EnumValue := { v with description := [] }

def TypeDefinition.undescribed (t : TypeDefinition) : TypeDefinition :=
  { t with
    description := []
    fields := t.fields.map (·.undescribed)
    values := t.values.map (·.undescribed) }

def Schema.undescribed (schema : Schema) : Schema where
  types := schema.types.map (·.undescribed)
  named := by simpa [TypeDefinition.undescribed] using schema.named
  distinct := by
    rw [List.map_map]
    exact schema.distinct

/-- A declaration with the comment of the table of scalars in front, if it is that table. -/
def Declaration.commented (d : Declaration) : Declaration :=
  if d.kind = .scalars then { d with body := scalarsComment ++ d.body } else d

/-- An emission whose table of scalars has its comment in front. -/
def Emission.commented (e : Emission) : Emission :=
  { e with declarations := e.declarations.map (·.commented) }

variable {schema : Schema} {s : Settings} {t : TypeDefinition} {f : Field}

section

variable (f)

theorem Field.undescribed_eq :
    f.undescribed = { f with description := [], arguments := f.arguments.map undescribed } := by
  cases f
  rw [undescribed]

@[simp] theorem Field.name_undescribed : f.undescribed.name = f.name := by
  rw [undescribed_eq]

@[simp] theorem Field.type_undescribed : f.undescribed.type = f.type := by
  rw [undescribed_eq]

@[simp] theorem Field.position_undescribed : f.undescribed.position = f.position := by
  rw [undescribed_eq]

@[simp] theorem Field.description_undescribed : f.undescribed.description = [] := by
  rw [undescribed_eq]

@[simp] theorem Field.arguments_undescribed :
    f.undescribed.arguments = f.arguments.map (·.undescribed) := by
  rw [undescribed_eq]

@[simp] theorem Field.isOptional_undescribed (avoid : AvoidOptionals) :
    f.undescribed.isOptional avoid = f.isOptional avoid := by
  rw [undescribed_eq]
  rfl

end

theorem Schema.find?_undescribed (schema : Schema) (name : Text) :
    schema.undescribed.find? name = (schema.find? name).map (·.undescribed) := by
  rw [find?, undescribed, List.find?_map]
  rfl

theorem Schema.ofKind_undescribed (schema : Schema) (k : Kind) :
    schema.undescribed.ofKind k = (schema.ofKind k).map (·.undescribed) := by
  have insert (t : TypeDefinition) (ts : List TypeDefinition) :
      insertByName t.undescribed (ts.map (·.undescribed)) =
        (insertByName t ts).map (·.undescribed) := by
    induction ts with
    | nil => rfl
    | cons u ts ih =>
      rw [List.map_cons, insertByName, insertByName, ih, apply_ite (List.map _)]
      rfl
  have sort (ts : List TypeDefinition) :
      (ts.map (·.undescribed)).foldr insertByName [] =
        (ts.foldr insertByName []).map (·.undescribed) := by
    induction ts with
    | nil => rfl
    | cons t ts ih => rw [List.map_cons, List.foldr_cons, ih, insert, List.foldr_cons]
  rw [ofKind, undescribed, List.filter_map, sort]
  rfl

theorem Schema.implementationsOf_undescribed (schema : Schema) (interface : Text) :
    schema.undescribed.implementationsOf interface =
      (schema.implementationsOf interface).map (·.undescribed) := by
  rw [implementationsOf, ofKind_undescribed, List.filter_map]
  rfl

@[simp] theorem comment_hidden (description : Text) (indent : Nat) :
    ({ s with disableDescriptions := true } : Settings).comment description indent = [] := rfl

@[simp] theorem comment_empty (indent : Nat) : s.comment [] indent = [] := by
  simp [Settings.comment, Text.comment]

theorem leafText_undescribed (schema : Schema) (s : Settings) (name referencedFrom : Text) :
    leafText schema.undescribed s name referencedFrom = leafText schema s name referencedFrom := by
  unfold leafText interfaceText
  rw [Schema.find?_undescribed, Schema.implementationsOf_undescribed, List.map_map]
  cases schema.find? name <;> rfl

theorem typeText_undescribed (schema : Schema) (s : Settings) (p : Position) (ref : TypeRef)
    (referencedFrom : Text) :
    typeText schema.undescribed { s with disableDescriptions := false } p ref referencedFrom =
      typeText schema { s with disableDescriptions := true } p ref referencedFrom := by
  have same : typeText schema.undescribed s p ref referencedFrom =
      typeText schema s p ref referencedFrom := by
    rw [typeText, leafText_undescribed, typeText]
  exact (typeText_with ..).trans (same.trans (typeText_with ..).symm)

theorem memberText_undescribed (schema : Schema) (s : Settings) (owner : Text) (f : Field) :
    memberText schema.undescribed { s with disableDescriptions := false } owner f.undescribed =
      memberText schema { s with disableDescriptions := true } owner f := by
  simp only [memberText, typeText_undescribed, Field.name_undescribed, Field.type_undescribed,
    Field.position_undescribed, Field.description_undescribed, Field.isOptional_undescribed,
    comment_hidden, comment_empty]
  rfl

theorem membersText_undescribed (schema : Schema) (s : Settings) (owner : Text)
    (fields : List Field) :
    membersText schema.undescribed { s with disableDescriptions := false } owner
        (fields.map (·.undescribed)) =
      membersText schema { s with disableDescriptions := true } owner fields := by
  unfold membersText
  rw [List.mapM_map]
  exact congrArg _ (mapM_congr fun f _ => memberText_undescribed schema s owner f)

theorem containerDeclaration_undescribed (kind : DeclarationKind) (hasTypename : Bool)
    (t : TypeDefinition) :
    containerDeclaration schema.undescribed { s with disableDescriptions := false } kind hasTypename
        t.undescribed =
      containerDeclaration schema { s with disableDescriptions := true } kind hasTypename t := by
  unfold containerDeclaration
  simp only [TypeDefinition.undescribed, membersText_undescribed, comment_hidden, comment_empty]
  rfl

theorem argumentsDeclaration_undescribed (owner : Text) (f : Field) :
    argumentsDeclaration schema.undescribed { s with disableDescriptions := false } owner
        f.undescribed =
      argumentsDeclaration schema { s with disableDescriptions := true } owner f := by
  unfold argumentsDeclaration
  simp only [Field.name_undescribed, Field.arguments_undescribed, membersText_undescribed]
  rfl

theorem containerWithArguments_undescribed (kind : DeclarationKind) (hasTypename : Bool)
    (t : TypeDefinition) :
    containerWithArguments schema.undescribed { s with disableDescriptions := false } kind
        hasTypename t.undescribed =
      containerWithArguments schema { s with disableDescriptions := true } kind hasTypename t := by
  have withArguments : t.undescribed.fields.filter (!·.arguments.isEmpty) =
      (t.fields.filter (!·.arguments.isEmpty)).map (·.undescribed) := by
    rw [TypeDefinition.undescribed, List.filter_map]
    refine congrArg (List.map _) (List.filter_congr fun f _ => ?_)
    simp
  unfold containerWithArguments
  rw [containerDeclaration_undescribed]
  refine bind_congr fun container => ?_
  simp only [withArguments, List.mapM_map]
  refine congrArg (· >>= _) ?_
  exact mapM_congr fun f _ => argumentsDeclaration_undescribed t.name f

theorem unionDeclaration_undescribed (t : TypeDefinition) :
    unionDeclaration schema.undescribed { s with disableDescriptions := false } t.undescribed =
      unionDeclaration schema { s with disableDescriptions := true } t := by
  unfold unionDeclaration
  simp only [Schema.find?_undescribed, Option.isNone_map, TypeDefinition.undescribed,
    comment_hidden, comment_empty]
  rfl

theorem enumDeclaration_undescribed (s : Settings) (t : TypeDefinition) :
    enumDeclaration { s with disableDescriptions := false } t.undescribed =
      enumDeclaration { s with disableDescriptions := true } t := by
  have members : EnumForm.members { s with disableDescriptions := false } t.undescribed =
      EnumForm.members { s with disableDescriptions := true } t := by
    simp only [EnumForm.members, EnumForm.sentinel, TypeDefinition.undescribed, List.map_map,
      List.flatMap_map, Function.comp_def, EnumValue.undescribed, comment_empty, comment_hidden]
    rfl
  have body : EnumForm.body { s with disableDescriptions := false } t.undescribed =
      EnumForm.body { s with disableDescriptions := true } t := by
    simp only [EnumForm.body, EnumForm.enumBody, EnumForm.stringUnionBody,
      EnumForm.constObjectBody, members]
    rfl
  have none : t.undescribed.description = [] := rfl
  rw [enumDeclaration, body, none, comment_empty, enumDeclaration, comment_hidden]
  rfl

theorem declarationsOf_undescribed (schema : Schema) (s : Settings) (t : TypeDefinition) :
    declarationsOf schema.undescribed { s with disableDescriptions := false } t.undescribed =
      declarationsOf schema { s with disableDescriptions := true } t := by
  have kind : t.undescribed.kind = t.kind := rfl
  unfold declarationsOf
  rw [kind, enumDeclaration_undescribed, containerDeclaration_undescribed,
    containerWithArguments_undescribed, containerWithArguments_undescribed,
    unionDeclaration_undescribed]

theorem scalarsDeclaration_undescribed (schema : Schema) (s : Settings) :
    scalarsDeclaration schema.undescribed { s with disableDescriptions := false } =
      (scalarsDeclaration schema { s with disableDescriptions := true }).commented := by
  have builtIn (name : Text) :
      (((schema.find? name).map (·.undescribed)).map (·.description)).getD [] = [] := by
    cases schema.find? name <;> rfl
  have entries : scalarEntries schema.undescribed =
      (scalarEntries schema).map fun entry => (entry.1, []) := by
    simp only [scalarEntries, Schema.find?_undescribed, Schema.ofKind_undescribed,
      List.filter_map, List.map_append, List.map_map, Function.comp_def, builtIn]
    rfl
  have rows : (scalarEntries schema.undescribed).flatMap
        (scalarEntry { s with disableDescriptions := false }) =
      (scalarEntries schema).flatMap (scalarEntry { s with disableDescriptions := true }) := by
    rw [entries, List.flatMap_map]
    simp only [scalarEntry, comment_empty]
    rfl
  simp only [scalarsDeclaration, rows, Declaration.commented, ← comment_scalars]
  rfl

theorem map_commented {ds : List Declaration} (others : ∀ d ∈ ds, d.kind ≠ .scalars) :
    ds.map (·.commented) = ds :=
  (List.map_congr_left fun d mem => if_neg (others d mem)).trans (List.map_id _)

theorem typeDeclarations_undescribed (schema : Schema) (s : Settings) :
    typeDeclarations schema.undescribed { s with disableDescriptions := false } =
      (typeDeclarations schema { s with disableDescriptions := true }).map
        (List.map (·.commented)) := by
  have order : typesInOrder schema.undescribed { s with disableDescriptions := false } =
      (typesInOrder schema { s with disableDescriptions := true }).map (·.undescribed) := by
    simp only [typesInOrder, List.map_flatMap]
    exact List.flatMap_congr fun k _ => schema.ofKind_undescribed k
  have tables : scalarTables schema.undescribed { s with disableDescriptions := false } =
      (scalarTables schema { s with disableDescriptions := true }).map (·.commented) := by
    unfold scalarTables
    rw [scalarsDeclaration_undescribed, apply_ite (List.map _)]
    rfl
  rw [typeDeclarations_eq, typeDeclarations_eq, order, List.mapM_map]
  simp only [Function.comp_def, declarationsOf_undescribed]
  cases made : (typesInOrder schema { s with disableDescriptions := true }).mapM
      (declarationsOf schema { s with disableDescriptions := true }) with
  | error e => rfl
  | ok lists =>
    simp only [Except.map, tables, List.map_append, map_commented (kind_ne_scalars made)]

/-- **To leave descriptions out is to have none.** A schema whose descriptions are left out and the
schema without descriptions have the same emission, up to the comment of the table of scalars, or
end at the same reference that leads nowhere. -/
theorem emit_undescribed (schema : Schema) (s : Settings) :
    emit schema.undescribed { s with disableDescriptions := false } =
      (emit schema { s with disableDescriptions := true }).map (·.commented) := by
  have types := typeDeclarations_undescribed schema s
  cases made : typeDeclarations schema { s with disableDescriptions := true } with
  | error u =>
    rw [made] at types
    rw [emit_eq_error.2 made, emit_eq_error.2 types]
    rfl
  | ok ds =>
    rw [made] at types
    have alike (d : Declaration) :
        d.commented.name = d.name ∧ d.commented.wrappers = d.wrappers := by
      unfold Declaration.commented
      split <;> exact ⟨rfl, rfl⟩
    obtain ⟨aliases, errors, skipped, kept, kinds, -, emitted, emitted'⟩ :=
      emit_alongside (f := id) (made.trans (by rw [List.map_id])) types rfl alike
    have unchanged : aliases.map (·.commented) = aliases :=
      map_commented fun d mem => by rw [kinds d mem]; decide
    rw [emitted, emitted']
    simp [Except.map, Emission.commented, unchanged]

end SchemaTypes
