import Mathlib.Data.List.DropRight
import SchemaTypes.Proofs.Alias.Agreement
import SchemaTypes.Proofs.Emission.Kept
import SchemaTypes.Proofs.Text.LeadingComment

namespace SchemaTypes

/-- The type of the values of a constant object, which is declared behind the object. -/
def EnumForm.valuesType (name : Text) : Text :=
  "type " ++ name ++ " = typeof " ++ name ++ "[keyof typeof " ++ name ++ "];"

namespace Declaration

/-- What a statement begins with. -/
def keywords : List Text := ["type ", "enum ", "const enum ", "const "]

/-- The statements behind the leading comment, without qualifiers. Only a constant object has two,
and the second is the type of its values. -/
def statements (mode : EnumMode) (d : Declaration) : List Text :=
  let code := d.body.drop (Text.leadingComment d.body).length
  if d.kind = .enum ∧ mode = .constObject then
    [code.rdrop (EnumForm.valuesType d.name).length, code.rtake (EnumForm.valuesType d.name).length]
  else [code]

/-- The declaration with the qualifier before each of its statements. -/
def exported (mode : EnumMode) (d : Declaration) : Declaration :=
  { d with
    body := Text.leadingComment d.body ++ (d.statements mode).flatMap (("export " : Text) ++ ·) }

/-- A declaration without qualifiers is a comment, or none, and then statements. Each of these
declares the name behind a keyword, and a second one is the type of the values of the first. -/
structure Plain (mode : EnumMode) (d : Declaration) : Prop where
  comment : ∃ description, Text.leadingComment d.body = Text.comment description 0
  body : d.body = Text.leadingComment d.body ++ (d.statements mode).flatten
  begins : ∀ statement ∈ d.statements mode, ∃ keyword ∈ keywords, keyword ++ d.name <+: statement
  second : d.kind = .enum → mode = .constObject → ∃ object,
    d.statements mode = [object, EnumForm.valuesType d.name] ∧
      ("\x7d as const;\n\n" : Text) <:+ object

/-- A declaration without qualifiers, and the same with them. -/
def Exports (mode : EnumMode) (d d' : Declaration) : Prop := d.Plain mode ∧ d' = d.exported mode

variable {mode : EnumMode} {d d' : Declaration} {comment code name : Text}

theorem leadingComment_of_begins (description : Text)
    (begins : ∃ keyword ∈ keywords, keyword ++ name <+: code) :
    Text.leadingComment (Text.comment description 0 ++ code) = Text.comment description 0 := by
  have letters : ∀ keyword ∈ keywords, keyword ≠ [] ∧ '/'.toUInt8 ∉ keyword.head? := by decide
  obtain ⟨keyword, mem, rest, rfl⟩ := begins
  obtain ⟨nonempty, other⟩ := letters keyword mem
  refine Text.leadingComment_append description fun b first => ?_
  rw [List.append_assoc, List.head?_append_of_ne_nil _ nonempty] at first
  rintro rfl
  exact other first

theorem Exports.of_one (isComment : ∃ description, comment = Text.comment description 0)
    (one : ¬ (d.kind = .enum ∧ mode = .constObject)) {keyword : Text} (known : keyword ∈ keywords)
    (rest : Text) (body : d.body = comment ++ (keyword ++ d.name ++ rest))
    (marked : d' = { d with
      body := comment ++ (("export " : Text) ++ (keyword ++ d.name ++ rest)) }) :
    Exports mode d d' := by
  obtain ⟨description, rfl⟩ := isComment
  have begins : ∃ keyword' ∈ keywords, keyword' ++ d.name <+: keyword ++ d.name ++ rest :=
    ⟨keyword, known, List.prefix_append _ _⟩
  have leading := body ▸ leadingComment_of_begins description begins
  have statements : d.statements mode = [keyword ++ d.name ++ rest] := by
    rw [statements, leading, body, List.drop_left, if_neg one]
  constructor
  · refine ⟨⟨description, leading⟩, ?_, ?_, fun enum object => absurd ⟨enum, object⟩ one⟩
    · rw [leading, statements, body, List.flatten_singleton]
    · rw [statements]
      exact List.forall_mem_singleton.2 begins
  · rw [marked, exported, leading, statements, List.flatMap_singleton]

theorem Exports.of_two (isComment : ∃ description, comment = Text.comment description 0)
    (enum : d.kind = .enum) {object : Text} (begins : ("const " : Text) ++ d.name <+: object)
    (ends : ("\x7d as const;\n\n" : Text) <:+ object)
    (body : d.body = comment ++ (object ++ EnumForm.valuesType d.name))
    (marked : d' = { d with
      body := comment ++
        (("export " : Text) ++ object ++ (("export " : Text) ++ EnumForm.valuesType d.name)) }) :
    Exports .constObject d d' := by
  obtain ⟨description, rfl⟩ := isComment
  have leading := body ▸ leadingComment_of_begins description
    ⟨"const ", by decide, begins.trans (List.prefix_append _ _)⟩
  have statements : d.statements .constObject = [object, EnumForm.valuesType d.name] := by
    rw [statements, leading, body, List.drop_left, if_pos ⟨enum, rfl⟩, List.rdrop, List.rtake,
      List.length_append, Nat.add_sub_cancel, List.take_left, List.drop_left]
  constructor
  · refine ⟨⟨description, leading⟩, ?_, ?_, fun _ _ => ⟨object, statements, ends⟩⟩
    · rw [leading, statements, body, List.flatten_cons, List.flatten_singleton]
    · rw [statements, List.forall_mem_cons, List.forall_mem_singleton]
      refine ⟨⟨"const ", by decide, begins⟩, "type ", by decide, ?_⟩
      simp only [EnumForm.valuesType, List.append_assoc]
      exact ⟨_, List.append_assoc _ _ _⟩
  · rw [marked, exported, leading, statements, List.flatMap_cons, List.flatMap_singleton]

end Declaration

open Declaration

variable {schema : Schema} {s : Settings} {mode : EnumMode}

theorem Settings.exists_comment (s : Settings) (description : Text) :
    ∃ shown, s.comment description 0 = Text.comment shown 0 := by
  unfold Settings.comment
  split
  · exact ⟨[], rfl⟩
  · exact ⟨description, rfl⟩

theorem Registry.declaration_exports (mode : EnumMode) (r : Registry) (a : Alias) :
    Exports mode ({ r with noExport := true }.declaration a)
      ({ r with noExport := false }.declaration a) := by
  have known : ("type " : Text) ∈ keywords := by decide
  refine .of_one ⟨[], rfl⟩ (fun both => nomatch both.1) known ("<T> = " ++ r.body a ++ ";") ?_ ?_
  all_goals
    simp only [declaration, List.append_assoc]
    rfl

theorem objectTypeText_exports (mode : EnumMode) (s : Settings) {kind : DeclarationKind}
    (other : kind ≠ .enum) {comment : Text}
    (isComment : ∃ description, comment = Text.comment description 0) (name members : Text)
    (wrappers : AliasSet) :
    Exports mode
      ⟨name, kind, comment ++ objectTypeText { s with noExport := true } name members, wrappers⟩
      ⟨name, kind, comment ++ objectTypeText { s with noExport := false } name members,
        wrappers⟩ := by
  have known : ("type " : Text) ∈ keywords := by decide
  refine .of_one isComment (fun both => other both.1) known
    (" = \x7b\n" ++ members ++ "\x7d;") ?_ ?_
  all_goals
    simp only [objectTypeText, List.append_assoc]
    rfl

theorem scalarsDeclaration_exports (schema : Schema) (s : Settings) :
    Exports mode (scalarsDeclaration schema { s with noExport := true })
      (scalarsDeclaration schema { s with noExport := false }) :=
  objectTypeText_exports mode s (by decide) (s.exists_comment _) _ _ _

theorem membersText_noExport (noExport : Bool) (owner : Text) (fields : List Field) :
    membersText schema { s with noExport } owner fields = membersText schema s owner fields := by
  have each (f : Field) : memberText schema { s with noExport } owner f =
      memberText schema s owner f := by
    have type : typeText schema { s with noExport } f.position f.type (owner ++ "." ++ f.name) =
        typeText schema s f.position f.type (owner ++ "." ++ f.name) := typeText_with ..
    rw [memberText, type]
    rfl
  unfold membersText
  exact congrArg _ (mapM_congr fun f _ => each f)

theorem membersText_alongside (owner : Text) (fields : List Field) :
    Alongside Eq (membersText schema { s with noExport := true } owner fields)
      (membersText schema { s with noExport := false } owner fields) := by
  rw [membersText_noExport true, membersText_noExport false]
  exact .refl _

theorem containerDeclaration_exports (mode : EnumMode) {kind : DeclarationKind}
    (other : kind ≠ .enum) (hasTypename : Bool) (t : TypeDefinition) :
    Alongside (Exports mode)
      (containerDeclaration schema { s with noExport := true } kind hasTypename t)
      (containerDeclaration schema { s with noExport := false } kind hasTypename t) := by
  refine (membersText_alongside _ _).map ?_
  rintro members _ rfl
  exact objectTypeText_exports mode s other (s.exists_comment t.description) _ _ _

theorem argumentsDeclaration_exports (mode : EnumMode) (owner : Text) (f : Field) :
    Alongside (Exports mode) (argumentsDeclaration schema { s with noExport := true } owner f)
      (argumentsDeclaration schema { s with noExport := false } owner f) := by
  refine (membersText_alongside _ _).map ?_
  rintro members _ rfl
  exact objectTypeText_exports mode s (by decide) ⟨[], rfl⟩ _ _ _

theorem containerWithArguments_exports (mode : EnumMode) {kind : DeclarationKind}
    (other : kind ≠ .enum) (hasTypename : Bool) (t : TypeDefinition) :
    Alongside (List.Forall₂ (Exports mode))
      (containerWithArguments schema { s with noExport := true } kind hasTypename t)
      (containerWithArguments schema { s with noExport := false } kind hasTypename t) := by
  refine (containerDeclaration_exports mode other hasTypename t).bind fun d d' first => ?_
  have each : ∀ f ∈ t.fields.filter (!·.arguments.isEmpty), Alongside (Exports mode)
      (argumentsDeclaration schema { s with noExport := true } t.name f)
      (argumentsDeclaration schema { s with noExport := false } t.name f) :=
    fun f _ => argumentsDeclaration_exports mode t.name f
  exact (Alongside.mapM each).bind fun ds ds' rest => .ok (.cons first rest)

theorem unionDeclaration_exports (mode : EnumMode) (t : TypeDefinition) :
    Alongside (Exports mode) (unionDeclaration schema { s with noExport := true } t)
      (unionDeclaration schema { s with noExport := false } t) := by
  unfold unionDeclaration
  split
  · exact .error _
  · have known : ("type " : Text) ∈ keywords := by decide
    refine .ok (.of_one (s.exists_comment t.description) (fun both => nomatch both.1) known
      (" = " ++ unionText (s.arms t.members) ++ ";") ?_ ?_)
    all_goals
      simp only [List.append_assoc]
      rfl

theorem enumDeclaration_exports (s : Settings) (t : TypeDefinition) :
    Exports s.enumMode (enumDeclaration { s with noExport := true } t)
      (enumDeclaration { s with noExport := false } t) := by
  have comment := s.exists_comment t.description
  let listed := ((EnumForm.members s t).mapIdx fun i m => EnumForm.enumMember s m i).flatten
  unfold enumDeclaration EnumForm.body
  cases mode : s.enumMode with
  | enum =>
    have known : ("enum " : Text) ∈ keywords := by decide
    refine .of_one comment (fun both => nomatch both.2) known (" \x7b\n" ++ listed ++ "\x7d") ?_ ?_
    all_goals
      simp only [EnumForm.enumBody, List.append_assoc]
      rfl
  | constEnum =>
    have known : ("const enum " : Text) ∈ keywords := by decide
    refine .of_one comment (fun both => nomatch both.2) known (" \x7b\n" ++ listed ++ "\x7d") ?_ ?_
    all_goals
      simp only [EnumForm.enumBody, List.append_assoc]
      rfl
  | stringUnion =>
    have known : ("type " : Text) ∈ keywords := by decide
    let arms := (EnumForm.members s t).map (Text.quoted ·.literal)
    refine .of_one comment (fun both => nomatch both.2) known (" = " ++ unionText arms ++ ";") ?_ ?_
    all_goals
      simp only [EnumForm.stringUnionBody, List.append_assoc]
      rfl
  | constObject =>
    let object : Text := "const " ++ t.name ++ " = \x7b\n" ++
      (EnumForm.members s t).flatMap EnumForm.objectMember ++ "\x7d as const;\n\n"
    have begins : ("const " : Text) ++ t.name <+: object := by
      simp only [object, List.append_assoc]
      exact ⟨_, List.append_assoc _ _ _⟩
    refine .of_two comment rfl begins (List.suffix_append _ _) ?_ ?_
    all_goals
      simp only [EnumForm.constObjectBody, EnumForm.valuesType, object, List.append_assoc]
      rfl

theorem declarationsOf_exports (schema : Schema) (s : Settings) (t : TypeDefinition) :
    Alongside (List.Forall₂ (Exports s.enumMode))
      (declarationsOf schema { s with noExport := true } t)
      (declarationsOf schema { s with noExport := false } t) := by
  have single {x y : Except UnresolvedReference Declaration}
      (h : Alongside (Exports s.enumMode) x y) :
      Alongside (List.Forall₂ (Exports s.enumMode)) (x.map ([·])) (y.map ([·])) :=
    h.map fun _ _ related => .cons related .nil
  unfold declarationsOf
  cases t.kind with
  | scalar => exact .ok .nil
  | enum => exact .ok (.cons (enumDeclaration_exports s t) .nil)
  | inputObject => exact single (containerDeclaration_exports _ (by decide) false t)
  | object => exact containerWithArguments_exports _ (by decide) (!s.skipTypename) t
  | interface => exact containerWithArguments_exports _ (by decide) false t
  | union => exact single (unionDeclaration_exports _ t)

theorem typeDeclarations_exports (schema : Schema) (s : Settings) :
    Alongside (List.Forall₂ (Exports s.enumMode))
      (typeDeclarations schema { s with noExport := true })
      (typeDeclarations schema { s with noExport := false }) := by
  have tables : List.Forall₂ (Exports s.enumMode) (scalarTables schema { s with noExport := true })
      (scalarTables schema { s with noExport := false }) := by
    by_cases permitted : s.typeFilter.permits .scalar
    · rw [scalarTables, scalarTables, if_pos permitted, if_pos permitted]
      exact .cons (scalarsDeclaration_exports schema s) .nil
    · rw [scalarTables, scalarTables, if_neg permitted, if_neg permitted]
      exact .nil
  have types := Alongside.mapM fun t (_ : t ∈ typesInOrder schema s) =>
    declarationsOf_exports schema s t
  rw [typeDeclarations_eq, typeDeclarations_eq]
  exact types.map fun lists lists' related => List.rel_append tables (List.rel_flatten related)

/-- An emission with the qualifier before each statement. -/
def Emission.exported (mode : EnumMode) (e : Emission) : Emission :=
  { e with declarations := e.declarations.map (·.exported mode) }

theorem materialized_exports (s : Settings) (ds : List Declaration) :
    materialized { s with noExport := false } (ds.map (·.exported s.enumMode)) =
        (materialized { s with noExport := true } ds).changed (·.exported s.enumMode) ∧
      ∀ d ∈ (materialized { s with noExport := true } ds).declarations, d.Plain s.enumMode := by
  let used : AliasSet := .unions (ds.map (·.wrappers))
  have each (a : Alias) := (s.registry.referring used).declaration_exports s.enumMode a
  constructor
  · have mirrors : ({ s with noExport := true }.registry.referring used).Mirrors
        ({ s with noExport := false }.registry.referring used) (fun _ => True)
        (·.exported s.enumMode) :=
      ⟨fun _ _ => rfl, fun a _ => (each a).2, fun _ _ _ _ => trivial⟩
    have same := mirrors.materialize rfl fun _ _ => trivial
    rw [materialized, List.map_map]
    exact same
  · intro d mem
    obtain ⟨as, -, aliases, -⟩ := (Registry.materialize_consistent
      (r := { s with noExport := true }.registry.referring used)).order
    obtain ⟨a, -, rfl⟩ := List.mem_map.1 (aliases ▸ mem : d ∈ as.map _)
    exact (each a).1

/-- **To leave the qualifier out takes it from each statement and changes nothing else.** With and
without qualifiers, a schema has the same reference that leads nowhere or has none. Then the errors
and what is left out are the same, and so are the declarations but for their texts: each one with
qualifiers is the one without them with `export ` before its statements, which are found from its
text behind the leading comment and from its name. -/
theorem emit_exports (schema : Schema) (s : Settings) :
    match emit schema { s with noExport := true } with
    | .error u => emit schema { s with noExport := false } = .error u
    | .ok e => emit schema { s with noExport := false } = .ok (e.exported s.enumMode) ∧
        ∀ d ∈ e.declarations, d.Plain s.enumMode := by
  have types := typeDeclarations_exports schema s
  unfold emit
  generalize typeDeclarations schema { s with noExport := true } = made at types ⊢
  generalize typeDeclarations schema { s with noExport := false } = made' at types ⊢
  cases types with
  | error u => rfl
  | @ok ds ds' related =>
    obtain ⟨plain, exported⟩ := (List.forall₂_and_left _ _).1 related
    obtain rfl : ds.map (·.exported s.enumMode) = ds' := by
      rw [← List.forall₂_eq_eq_eq, List.forall₂_map_left_iff]
      exact exported.imp fun _ _ => Eq.symm
    obtain ⟨aliases, plainAliases⟩ := materialized_exports s ds
    have avoids (failed : AliasSet) (d : Declaration) :
        (d.exported s.enumMode).avoids failed = d.avoids failed := rfl
    simp only [Except.map, List.partition_eq_filter_filter, aliases]
    constructor
    · simp only [Emission.exported, Materialized.changed, List.filter_map, List.map_append,
        List.map_map, Function.comp_def, avoids]
      rfl
    · intro d mem
      rcases List.mem_append.1 mem with old | new
      · exact plainAliases d old
      · exact plain d (List.mem_filter.1 new).1

/-- A description and literals that look like the parts of a declaration stay as they are. -/
example :
    let t : TypeDefinition :=
      { kind := .enum, name := "E", description := "*/ export enum E",
        values := [⟨"A", "type E = typeof E", "const E"⟩] }
    (enumDeclaration { enumMode := .constObject, noExport := true } t).exported .constObject =
      enumDeclaration { enumMode := .constObject } t := by
  decide +kernel

end SchemaTypes
