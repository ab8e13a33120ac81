import SchemaTypes.Proofs.Emission.Declared
import SchemaTypes.Proofs.Schema.Drafting

/-!
# Marks of optional members

Which `?` are avoided shows behind the names of members and nowhere else. A declaration is laid out
without its marks first, and then each member is marked by its field alone.
-/

namespace SchemaTypes

/-- A member of a declaration, cut behind the name of its field. -/
structure Slot where
  field : Field
  /-- What stands before the name. -/
  before : Text
  /-- What stands behind the name and its mark. -/
  after : Text
  /-- The aliases used in the type of the member. -/
  used : AliasSet

/-- The member with its mark, unless that is avoided. -/
def Slot.text (avoid : AvoidOptionals) (m : Slot) : Text :=
  m.before ++ m.field.name ++ optionalMark (m.field.isOptional avoid) ++ m.after

/-- A declaration with its members cut behind their names. -/
structure Layout where
  name : Text
  kind : DeclarationKind
  head : Text
  members : List Slot
  tail : Text
  wrappers : AliasSet

/-- The declaration with the marks that are not avoided. -/
def Layout.declaration (avoid : AvoidOptionals) (l : Layout) : Declaration where
  name := l.name
  kind := l.kind
  body := l.head ++ l.members.flatMap (·.text avoid) ++ l.tail
  wrappers := l.wrappers

/-- A declaration laid out without any members. -/
def Declaration.layout (d : Declaration) : Layout := ⟨d.name, d.kind, d.body, [], [], d.wrappers⟩

variable {schema : Schema} {s : Settings} {a a' : AvoidOptionals} {l : Layout} {f : Field}
  {t : TypeDefinition}

@[simp] theorem declaration_layout (d : Declaration) : d.layout.declaration a = d := by
  simp [Layout.declaration, Declaration.layout]

/-- A field as a member that has no mark yet. -/
def memberSlot (schema : Schema) (s : Settings) (owner : Text) (f : Field) :
    Except UnresolvedReference Slot :=
  (typeText schema s f.position f.type (owner ++ "." ++ f.name)).map fun type =>
    { field := f
      before := s.comment f.description 2 ++ "  " ++ s.readonlyQualifier
      after := ": " ++ type.text ++ ";\n"
      used := type.used }

/-- An object type under a name, before its members have their marks. -/
def objectLayout (s : Settings) (name : Text) (kind : DeclarationKind) (comment typename : Text)
    (members : List Slot) : Layout where
  name := name
  kind := kind
  head := comment ++ Declaration.exportQualifier s.noExport ++ "type " ++ name ++ " = \x7b\n" ++
    typename
  members := members
  tail := "\x7d;"
  wrappers := AliasSet.unions (members.map (·.used))

def containerLayout (schema : Schema) (s : Settings) (kind : DeclarationKind) (hasTypename : Bool)
    (t : TypeDefinition) : Except UnresolvedReference Layout :=
  (t.fields.mapM (memberSlot schema s t.name)).map
    (objectLayout s t.name kind (s.comment t.description 0)
      (if hasTypename then typenameMember s t.name else []))

def argumentsLayout (schema : Schema) (s : Settings) (owner : Text) (f : Field) :
    Except UnresolvedReference Layout :=
  (f.arguments.mapM (memberSlot schema s (owner ++ "." ++ f.name))).map
    (objectLayout s (argumentsName owner f.name) .arguments [] [])

/-- The layout of a type with fields, then those of the arguments of its fields. -/
def containerLayouts (schema : Schema) (s : Settings) (kind : DeclarationKind) (hasTypename : Bool)
    (t : TypeDefinition) : Except UnresolvedReference (List Layout) := do
  let container ← containerLayout schema s kind hasTypename t
  let arguments ← (t.fields.filter (!·.arguments.isEmpty)).mapM (argumentsLayout schema s t.name)
  return container :: arguments

def layoutsOf (schema : Schema) (s : Settings) (t : TypeDefinition) :
    Except UnresolvedReference (List Layout) :=
  match t.kind with
  | .scalar => .ok []
  | .enum => .ok [(enumDeclaration s t).layout]
  | .inputObject => (containerLayout schema s .inputObject false t).map ([·])
  | .object => containerLayouts schema s .object (!s.skipTypename) t
  | .interface => containerLayouts schema s .interface false t
  | .union => (unionDeclaration schema s t).map ([·.layout])

/-- The layouts of all declarations of a schema. -/
def typeLayouts (schema : Schema) (s : Settings) : Except UnresolvedReference (List Layout) :=
  ((typesInOrder schema s).mapM (layoutsOf schema s)).map fun lists =>
    (scalarTables schema s).map (·.layout) ++ lists.flatten

theorem memberText_eq_slot (schema : Schema) (s : Settings) (a : AvoidOptionals) (owner : Text)
    (f : Field) : memberText schema { s with avoidOptionals := a } owner f =
      (memberSlot schema s owner f).map fun m => ⟨m.text a, m.used⟩ := by
  unfold memberText memberSlot
  rw [typeText_with]
  cases typeText schema s f.position f.type (owner ++ "." ++ f.name) with
  | error u => rfl
  | ok type =>
    simp only [Except.map, Slot.text, List.append_assoc]
    rfl

theorem membersText_eq_slots (schema : Schema) (s : Settings) (a : AvoidOptionals) (owner : Text)
    (fields : List Field) : membersText schema { s with avoidOptionals := a } owner fields =
      (fields.mapM (memberSlot schema s owner)).map fun members =>
        ⟨members.flatMap (·.text a), AliasSet.unions (members.map (·.used))⟩ := by
  unfold membersText
  rw [mapM_congr fun f _ => memberText_eq_slot schema s a owner f, mapM_map_right]
  cases fields.mapM (memberSlot schema s owner) with
  | error u => rfl
  | ok members => simp [Except.map, List.flatMap_map, Function.comp_def]

theorem containerDeclaration_eq_layout (schema : Schema) (s : Settings) (a : AvoidOptionals)
    (kind : DeclarationKind) (hasTypename : Bool) (t : TypeDefinition) :
    containerDeclaration schema { s with avoidOptionals := a } kind hasTypename t =
      (containerLayout schema s kind hasTypename t).map (·.declaration a) := by
  unfold containerDeclaration containerLayout
  rw [membersText_eq_slots]
  cases t.fields.mapM (memberSlot schema s t.name) with
  | error u => rfl
  | ok members =>
    simp only [Except.map, Layout.declaration, objectLayout, objectTypeText, List.append_assoc]
    rfl

theorem argumentsDeclaration_eq_layout (schema : Schema) (s : Settings) (a : AvoidOptionals)
    (owner : Text) (f : Field) :
    argumentsDeclaration schema { s with avoidOptionals := a } owner f =
      (argumentsLayout schema s owner f).map (·.declaration a) := by
  unfold argumentsDeclaration argumentsLayout
  simp only [membersText_eq_slots, argumentsName_eq]
  cases f.arguments.mapM (memberSlot schema s (owner ++ "." ++ f.name)) with
  | error u => rfl
  | ok members =>
    simp only [Except.map, Layout.declaration, objectLayout, objectTypeText, List.append_assoc,
      List.append_nil, List.nil_append]

theorem containerWithArguments_eq_layouts (schema : Schema) (s : Settings) (a : AvoidOptionals)
    (kind : DeclarationKind) (hasTypename : Bool) (t : TypeDefinition) :
    containerWithArguments schema { s with avoidOptionals := a } kind hasTypename t =
      (containerLayouts schema s kind hasTypename t).map (List.map (·.declaration a)) := by
  unfold containerWithArguments containerLayouts
  simp only [containerDeclaration_eq_layout,
    mapM_congr fun f _ => argumentsDeclaration_eq_layout schema s a t.name f, mapM_map_right]
  cases containerLayout schema s kind hasTypename t with
  | error u => rfl
  | ok container =>
    cases (t.fields.filter (!·.arguments.isEmpty)).mapM (argumentsLayout schema s t.name) <;> rfl

theorem declarationsOf_eq_layouts (schema : Schema) (s : Settings) (a : AvoidOptionals)
    (t : TypeDefinition) : declarationsOf schema { s with avoidOptionals := a } t =
      (layoutsOf schema s t).map (List.map (·.declaration a)) := by
  unfold declarationsOf layoutsOf
  cases t.kind with
  | scalar => rfl
  | enum =>
    simp only [Except.map, List.map_cons, declaration_layout]
    rfl
  | inputObject =>
    simp only [containerDeclaration_eq_layout]
    cases containerLayout schema s .inputObject false t <;> rfl
  | object | interface => exact containerWithArguments_eq_layouts ..
  | union =>
    have same : unionDeclaration schema { s with avoidOptionals := a } t =
        unionDeclaration schema s t := rfl
    simp only [same]
    cases unionDeclaration schema s t with
    | error u => rfl
    | ok d => simp [Except.map]

/-- The declarations of a schema are its layouts with marks. -/
theorem typeDeclarations_eq_layouts (schema : Schema) (s : Settings) (a : AvoidOptionals) :
    typeDeclarations schema { s with avoidOptionals := a } =
      (typeLayouts schema s).map (List.map (·.declaration a)) := by
  have types : typesInOrder schema { s with avoidOptionals := a } = typesInOrder schema s := rfl
  have tables : scalarTables schema { s with avoidOptionals := a } = scalarTables schema s := rfl
  rw [typeDeclarations_eq, types, tables,
    mapM_congr fun t _ => declarationsOf_eq_layouts schema s a t, mapM_map_right, typeLayouts]
  cases (typesInOrder schema s).mapM (layoutsOf schema s) with
  | error u => rfl
  | ok lists => simp [Except.map, List.map_flatten, Function.comp_def]

/-! ## What a layout shows -/

/-- Where the members of a declaration stand, if it has any. -/
def DeclarationKind.position? : DeclarationKind → Option Position
  | .object => some .output
  | .interface => some .output
  | .inputObject => some .inputField
  | .arguments => some .argument
  | _ => none

/-- The fields that are the members of a declaration: those of a type, or the arguments of a field.
The declarations of some kinds have no members. -/
inductive Schema.Shows (schema : Schema) : DeclarationKind → Text → List Field → Prop
  | nothing {kind : DeclarationKind} {name : Text} (plain : kind.position? = none) :
      Shows schema kind name []
  | fields {t : TypeDefinition} (listed : t ∈ schema.types) :
      Shows schema t.kind.declarationKind t.name t.fields
  | arguments {t : TypeDefinition} {f : Field} (listed : t ∈ schema.types) (mem : f ∈ t.fields) :
      Shows schema .arguments (argumentsName t.name f.name) f.arguments

/-- A layout of a declaration of a schema: its members are fields of the schema, and the member
that holds the name of an object type stands before them and is none of them. -/
structure Layout.Of (schema : Schema) (s : Settings) (l : Layout) : Prop where
  members : schema.Shows l.kind l.name (l.members.map (·.field))
  typename : l.kind = .object → s.skipTypename = false → typenameMember s l.name <:+ l.head

theorem fields_of_memberSlots {owner : Text} {fields : List Field} {members : List Slot}
    (h : fields.mapM (memberSlot schema s owner) = .ok members) :
    members.map (·.field) = fields := by
  have each (f : Field) (m : Slot) (made : memberSlot schema s owner f = .ok m) : m.field = f := by
    obtain ⟨type, -, rfl⟩ := map_eq_ok.1 made
    rfl
  have kept : members.map (·.field) = fields.map id := map_of_mapM each h
  rwa [List.map_id] at kept

theorem Layout.Of.layout {d : Declaration} (plain : d.kind.position? = none) :
    d.layout.Of schema s := by
  refine ⟨.nothing plain, fun object => ?_⟩
  have kind : d.kind = .object := object
  rw [kind] at plain
  cases plain

theorem of_containerLayout {hasTypename : Bool} (listed : t ∈ schema.types)
    (typename : t.kind = .object → s.skipTypename = false → hasTypename = true)
    (h : containerLayout schema s t.kind.declarationKind hasTypename t = .ok l) :
    l.Of schema s := by
  obtain ⟨members, made, rfl⟩ := map_eq_ok.1 h
  refine ⟨?_, fun object asked => ?_⟩
  · rw [objectLayout, fields_of_memberSlots made]
    exact .fields listed
  · have kind : t.kind = .object := by
      cases kind : t.kind <;> simp_all [objectLayout, Kind.declarationKind]
    rw [objectLayout, typename kind asked]
    exact List.suffix_append _ _

theorem of_argumentsLayout (listed : t ∈ schema.types) (mem : f ∈ t.fields)
    (h : argumentsLayout schema s t.name f = .ok l) : l.Of schema s := by
  obtain ⟨members, made, rfl⟩ := map_eq_ok.1 h
  refine ⟨?_, fun object => nomatch object⟩
  rw [objectLayout, fields_of_memberSlots made]
  exact .arguments listed mem

theorem of_containerLayouts {hasTypename : Bool} {ls : List Layout} (listed : t ∈ schema.types)
    (typename : t.kind = .object → s.skipTypename = false → hasTypename = true)
    (h : containerLayouts schema s t.kind.declarationKind hasTypename t = .ok ls) :
    ∀ l ∈ ls, l.Of schema s := by
  obtain ⟨container, made, h⟩ := bind_eq_ok.1 h
  obtain ⟨arguments, made', h⟩ := bind_eq_ok.1 h
  cases h
  refine List.forall_mem_cons.2 ⟨of_containerLayout listed typename made, fun l mem => ?_⟩
  obtain ⟨f, inside, declares⟩ := exists_of_mem_mapM made' mem
  exact of_argumentsLayout listed (List.mem_filter.1 inside).1 declares

theorem of_layoutsOf {ls : List Layout} (listed : t ∈ schema.types)
    (h : layoutsOf schema s t = .ok ls) : ∀ l ∈ ls, l.Of schema s := by
  unfold layoutsOf at h
  cases kind : t.kind with
  | scalar =>
    rw [kind] at h
    cases h
    exact fun l mem => absurd mem List.not_mem_nil
  | enum =>
    rw [kind] at h
    cases h
    exact List.forall_mem_singleton.2 (.layout rfl)
  | inputObject =>
    rw [kind] at h
    obtain ⟨l, made, rfl⟩ := map_eq_ok.1 h
    refine List.forall_mem_singleton.2 (of_containerLayout listed ?_ (by rw [kind]; exact made))
    simp [kind]
  | object =>
    rw [kind] at h
    have made : containerLayouts schema s t.kind.declarationKind (!s.skipTypename) t = .ok ls := by
      rw [kind]
      exact h
    exact of_containerLayouts listed (fun _ asked => by rw [asked]; rfl) made
  | interface =>
    rw [kind] at h
    exact of_containerLayouts listed (by simp [kind]) (by rw [kind]; exact h)
  | union =>
    rw [kind] at h
    obtain ⟨d, made, rfl⟩ := map_eq_ok.1 h
    unfold unionDeclaration at made
    split at made
    · cases made
    · cases made
      exact List.forall_mem_singleton.2 (.layout rfl)

theorem of_typeLayouts {ls : List Layout} (h : typeLayouts schema s = .ok ls) :
    ∀ l ∈ ls, l.Of schema s := by
  obtain ⟨lists, made, rfl⟩ := map_eq_ok.1 h
  intro l mem
  rcases List.mem_append.1 mem with table | type
  · unfold scalarTables at table
    split at table
    · rw [List.mem_singleton.1 table]
      exact .layout rfl
    · cases table
  · obtain ⟨own, mem', inside⟩ := List.mem_flatten.1 type
    obtain ⟨t, listed, declares⟩ := exists_of_mem_mapM made mem'
    obtain ⟨k, -, ofKind⟩ := List.mem_flatMap.1 listed
    exact of_layoutsOf (Schema.mem_ofKind.1 ofKind).1 declares l inside

/-- What can change in a layout if the avoided marks change in one category. -/
structure Layout.Frame (a a' : AvoidOptionals) (l : Layout) : Prop where
  field : ∀ b, a' = { a with field := b } → l.kind ≠ .object → l.kind ≠ .interface →
    l.declaration a' = l.declaration a
  inputValue : ∀ b, a' = { a with inputValue := b } → l.kind ≠ .inputObject →
    l.declaration a' = l.declaration a
  object : ∀ b, a' = { a with object := b } → l.kind ≠ .arguments →
    l.declaration a' = l.declaration a
  defaultValue : ∀ b, a' = { a with defaultValue := b } →
    (l.kind ≠ .inputObject → l.kind ≠ .arguments → l.declaration a' = l.declaration a) ∧
    ∀ m ∈ l.members, m.field.default? = none → m.text a' = m.text a

theorem Schema.Shows.position {kind : DeclarationKind} {name : Text} {fields : List Field}
    (formed : ∀ t ∈ schema.types, t.Formed) (h : schema.Shows kind name fields) :
    ∀ f ∈ fields, kind.position? = some f.position := by
  intro f mem
  cases h with
  | nothing => cases mem
  | @fields t listed =>
    have stands := ((formed t listed).fields f mem).position
    cases kind : t.kind <;> rw [kind] at stands <;> exact stands
  | @arguments t g listed inside =>
    rw [(((formed t listed).fields g inside).arguments f mem).position]
    rfl

theorem Slot.text_congr {m : Slot} (same : m.field.isOptional a' = m.field.isOptional a) :
    m.text a' = m.text a := by
  rw [Slot.text, same, Slot.text]

theorem Layout.Of.declaration_congr (h : l.Of schema s) (formed : ∀ t ∈ schema.types, t.Formed)
    (same : ∀ f : Field, l.kind.position? = some f.position → f.isOptional a' = f.isOptional a) :
    l.declaration a' = l.declaration a := by
  have members : l.members.flatMap (·.text a') = l.members.flatMap (·.text a) :=
    List.flatMap_congr fun m mem => Slot.text_congr <| same m.field <|
      h.members.position formed m.field (List.mem_map_of_mem mem)
  rw [Layout.declaration, members, Layout.declaration]

theorem Layout.Of.frame (h : l.Of schema s) (formed : ∀ t ∈ schema.types, t.Formed)
    (a a' : AvoidOptionals) : l.Frame a a' := by
  -- A category counts at one position only, and all members of a declaration stand at one.
  constructor
  · rintro b rfl notObject notInterface
    refine h.declaration_congr formed fun f stands => ?_
    cases position : f.position with
    | output => cases kind : l.kind <;> simp_all [DeclarationKind.position?]
    | inputField | argument => simp [Field.isOptional, AvoidOptionals.avoids, position]
  · rintro b rfl notInput
    refine h.declaration_congr formed fun f stands => ?_
    cases position : f.position with
    | inputField => cases kind : l.kind <;> simp_all [DeclarationKind.position?]
    | output | argument => simp [Field.isOptional, AvoidOptionals.avoids, position]
  · rintro b rfl notArguments
    refine h.declaration_congr formed fun f stands => ?_
    cases position : f.position with
    | argument => cases kind : l.kind <;> simp_all [DeclarationKind.position?]
    | output | inputField => simp [Field.isOptional, AvoidOptionals.avoids, position]
  · rintro b rfl
    constructor
    · intro notInput notArguments
      refine h.declaration_congr formed fun f stands => ?_
      cases position : f.position with
      | output => simp [Field.isOptional, AvoidOptionals.avoids, position, Position.isInput]
      | inputField | argument => cases kind : l.kind <;> simp_all [DeclarationKind.position?]
    · intro m _ noDefault
      refine Slot.text_congr ?_
      cases position : m.field.position <;>
        simp [Field.isOptional, AvoidOptionals.avoids, position, noDefault]

/-! ## Two runs -/

/-- Two declarations of a schema that have one layout, each with the marks that are not avoided in
its run. -/
def Declaration.Remarked (schema : Schema) (s : Settings) (a a' : AvoidOptionals)
    (d d' : Declaration) : Prop :=
  ∃ l : Layout, l.Of schema s ∧ l.Frame a a' ∧ d = l.declaration a ∧ d' = l.declaration a'

/-- **Avoided marks move nothing but marks.** Let two runs for a written schema differ in the marks
that they avoid. They end at the same reference that leads nowhere, or have the same errors, leave
out the same and have the same declarations side by side, up to the marks behind the names of the
members for fields and arguments. A change in the category of fields shows in objects and interfaces
alone, one in that of input values in input objects alone, one in that of arguments in arguments
alone, and one in that of default values in the members of input objects and arguments whose field
has a default value. The member that holds the name of an object type is the same in both. -/
theorem emit_of_avoidOptionals (written : schema.Written) (s : Settings) (a a' : AvoidOptionals) :
    (∀ u, emit schema { s with avoidOptionals := a } = .error u ↔
      emit schema { s with avoidOptionals := a' } = .error u) ∧
    ∀ e, emit schema { s with avoidOptionals := a } = .ok e →
      ∃ e', emit schema { s with avoidOptionals := a' } = .ok e' ∧
        e'.errors = e.errors ∧ e'.skipped = e.skipped ∧
        List.Forall₂ (Declaration.Remarked schema s a a') e.declarations e'.declarations := by
  constructor
  · intro u
    rw [emit_eq_error, emit_eq_error, typeDeclarations_eq_layouts, typeDeclarations_eq_layouts]
    cases typeLayouts schema s <;> simp [Except.map]
  · intro e emitted
    obtain ⟨ds, made, -⟩ := emit_eq_ok emitted
    rw [typeDeclarations_eq_layouts] at made
    obtain ⟨ls, laid, -⟩ := map_eq_ok.1 made
    have types (b : AvoidOptionals) : typeDeclarations schema { s with avoidOptionals := b } =
        .ok (ls.map (·.declaration b)) := by
      rw [typeDeclarations_eq_layouts, laid]
      rfl
    obtain ⟨aliases, errors, skipped, kept, kinds, part, first, second⟩ :=
      emit_alongside (types a) (types a') rfl fun _ => ⟨rfl, rfl⟩
    obtain rfl := Except.ok.inj (first.symm.trans emitted)
    have formed := Schema.formed_of_written written
    have remarked (l : Layout) (of : l.Of schema s) :
        Declaration.Remarked schema s a a' (l.declaration a) (l.declaration a') :=
      ⟨l, of, of.frame formed a a', rfl, rfl⟩
    refine ⟨_, second, rfl, rfl, List.rel_append ?_ ?_⟩
    · refine List.forall₂_same.2 fun d mem => ?_
      have plain : d.kind.position? = none := by rw [kinds d mem]; rfl
      simpa using remarked d.layout (.layout plain)
    · rw [List.forall₂_map_left_iff, List.forall₂_map_right_iff]
      exact List.forall₂_same.2 fun l mem => remarked l (of_typeLayouts laid l (part mem))

namespace Sample

/-- Without the marks of fields, the sample differs from that with all marks in marks alone. -/
theorem remarked : Sample.schema.Written ∧
    ∃ e, emit Sample.schema { avoidOptionals := { field := true } } = .ok e ∧
      e.declarations ≠ emission.declarations ∧
      List.Forall₂ (Declaration.Remarked Sample.schema {} {} { field := true })
        emission.declarations e.declarations := by
  have other : (emit Sample.schema { avoidOptionals := { field := true } }).toOption.map
      (·.declarations) ≠ (emit Sample.schema {}).toOption.map (·.declarations) := by
    decide +kernel
  obtain ⟨e, emitted, -, -, pairs⟩ :=
    (emit_of_avoidOptionals written {} {} { field := true }).2 emission emit_eq
  rw [emitted, emit_eq] at other
  exact ⟨written, e, emitted, fun same => other (congrArg some same), pairs⟩

end Sample

end SchemaTypes
