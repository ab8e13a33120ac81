import SchemaTypes.Proofs.Text.FreshName
import SchemaTypes.Proofs.Text.Quoting
import SchemaTypes.Render.Enum

namespace SchemaTypes

namespace EnumForm

open Text

/-- The literals of an enum's members, the one for later values last. -/
def literals (s : Settings) (t : TypeDefinition) : List Text :=
  t.values.map (memberLiteral s t) ++ if s.futureProofEnums then [sentinel s t] else []

/-- The names and the literals of the declared members. -/
def taken (s : Settings) (t : TypeDefinition) : List Text :=
  t.values.flatMap fun v => [v.name, memberLiteral s t v]

/-- What is written before the members. -/
def opening (s : Settings) (t : TypeDefinition) : Text :=
  s.comment t.description 0 ++ Declaration.exportQualifier s.noExport ++
    match s.enumMode with
    | .enum => "enum " ++ t.name ++ " \x7b\n"
    | .constEnum => "const " ++ "enum " ++ t.name ++ " \x7b\n"
    | .stringUnion => "type " ++ t.name ++ " = "
    | .constObject => "const " ++ t.name ++ " = \x7b\n"

/-- What is written behind the members. -/
def closing (s : Settings) (t : TypeDefinition) : Text :=
  match s.enumMode with
  | .enum => "\x7d"
  | .constEnum => "\x7d"
  | .stringUnion => ";"
  | .constObject =>
    "\x7d as const;\n\n" ++ Declaration.exportQualifier s.noExport ++ "type " ++ t.name ++
      " = typeof " ++ t.name ++ "[keyof typeof " ++ t.name ++ "];"

/-- The member of a number as it is written. Only members of an enum can be numbered, and an arm of
a union is the literal alone. -/
def entry (s : Settings) (number : Nat) (m : Member) : Text :=
  match s.enumMode with
  | .enum | .constEnum =>
    m.comment ++ "  " ++ m.name ++ " = " ++
      (if s.numericEnums then decimal number else quoted m.literal) ++ ",\n"
  | .stringUnion => quoted m.literal
  | .constObject => m.comment ++ "  " ++ m.name ++ ": " ++ quoted m.literal ++ ",\n"

/-- The declared members as they are written, numbered from zero. -/
def declared (s : Settings) (t : TypeDefinition) : List Text :=
  t.values.mapIdx fun i v => entry s i ⟨s.comment v.description 2, v.name, memberLiteral s t v⟩

/-- Members one after the other; those of a union with bars between them, or `never` for none. -/
def listing (s : Settings) (entries : List Text) : Text :=
  if s.enumMode = .stringUnion then if entries = [] then "never" else joined " | " entries
  else entries.flatten

variable {s : Settings} {t u : TypeDefinition}

theorem mapIdx_const (f : Member → Text) (ms : List Member) :
    ms.mapIdx (fun _ => f) = ms.map f := List.ext_getElem? (by simp)

theorem body_eq (s : Settings) (t : TypeDefinition) :
    (enumDeclaration s t).body =
      opening s t ++ listing s ((members s t).mapIdx (entry s)) ++ closing s t := by
  unfold enumDeclaration body opening closing listing entry
  cases s.enumMode
  case enum => simp [enumBody, enumMember]
  case constEnum => simp [enumBody, enumMember]
  case stringUnion => simp [stringUnionBody, mapIdx_const, unionText]
  case constObject =>
    unfold constObjectBody objectMember
    simp [mapIdx_const, List.flatMap_def]

theorem declareEnum_of_enum (enum : t.kind = .enum) (s : Settings) :
    declareEnum s t = .ok (enumDeclaration s t) := if_pos enum

theorem arms_inj {ls ms : List Text}
    (same : (ls.map quoted).flatMap ((" | " : Text) ++ ·) ++ (";" : Text) =
      (ms.map quoted).flatMap ((" | " : Text) ++ ·) ++ (";" : Text)) : ls = ms := by
  induction ls generalizing ms with
  | nil =>
    cases ms with
    | nil => rfl
    | cons m ms => cases same
  | cons l ls ih =>
    cases ms with
    | nil => cases same
    | cons m ms =>
      simp only [List.map_cons, List.flatMap_cons, List.append_assoc] at same
      obtain ⟨rfl, later⟩ := quoted_append_inj (List.append_cancel_left same)
      rw [ih later]

theorem unionText_quoted_inj {ls ms : List Text}
    (same : unionText (ls.map quoted) ++ (";" : Text) = unionText (ms.map quoted) ++ (";" : Text)) :
    ls = ms := by
  have text (l : Text) (ls : List Text) : unionText ((l :: ls).map quoted) ++ (";" : Text) =
      quoted l ++ ((ls.map quoted).flatMap ((" | " : Text) ++ ·) ++ (";" : Text)) := by
    rw [unionText, if_neg (by simp), List.map_cons, joined_cons, List.append_assoc]
  cases ls with
  | nil =>
    cases ms with
    | nil => rfl
    | cons m ms =>
      rw [text] at same
      cases same
  | cons l ls =>
    cases ms with
    | nil =>
      rw [text] at same
      cases same
    | cons m ms =>
      rw [text, text] at same
      obtain ⟨rfl, later⟩ := quoted_append_inj same
      rw [arms_inj later]

theorem map_literal_members (s : Settings) (t : TypeDefinition) :
    (members s t).map (·.literal) = literals s t := by
  unfold members literals
  split <;> simp

theorem body_of_stringUnion (mode : s.enumMode = .stringUnion) (t : TypeDefinition) :
    (enumDeclaration s t).body = opening s t ++ (unionText ((literals s t).map quoted) ++ ";") := by
  have each : entry s = fun _ m => quoted m.literal := by simp [funext_iff, entry, mode]
  have arms : (members s t).mapIdx (entry s) = (literals s t).map quoted := by
    rw [each, mapIdx_const, ← map_literal_members, List.map_map]
    rfl
  simp [body_eq, arms, listing, closing, mode, unionText]

/-- **A literal tells its value, and a union of literals tells them.** -/
theorem stringUnion_faithful :
    (∀ source v rest, unquoted source = some (v, rest) ↔ source = quoted v ++ rest) ∧
    (∀ v, ∀ b ∈ quoted v, b ≠ lineFeed ∧ b ≠ carriageReturn) ∧
    ∀ (s : Settings) (t u : TypeDefinition), s.enumMode = .stringUnion →
      s.disableDescriptions = true → t.kind = .enum → u.kind = .enum → t.name = u.name →
      ∃ d e, declareEnum s t = .ok d ∧ declareEnum s u = .ok e ∧
        (d.body = e.body ↔ literals s t = literals s u) := by
  refine ⟨fun _ _ _ => unquoted_eq_some_iff, fun _ _ => not_lineBreak_of_quoted, ?_⟩
  intro s t u mode undescribed enum enum' name
  refine ⟨_, _, declareEnum_of_enum enum s, declareEnum_of_enum enum' s, ?_⟩
  have before : opening s t = opening s u := by
    simp [opening, Settings.comment, undescribed, mode, name]
  rw [body_of_stringUnion mode, body_of_stringUnion mode, before]
  constructor
  · intro same
    exact unionText_quoted_inj (List.append_cancel_left same)
  · intro same
    rw [same]

def lettered (literals : List Text) : TypeDefinition where
  kind := .enum
  name := "Letters"
  values := literals.map fun l => ⟨l, l, []⟩

/-- A literal with quotes and a bar in it is not taken for two literals. -/
theorem lettered_differ : ∃ d e,
    declareEnum { enumMode := .stringUnion, disableDescriptions := true }
      (lettered ["A' | 'B"]) = .ok d ∧
    declareEnum { enumMode := .stringUnion, disableDescriptions := true }
      (lettered ["A", "B"]) = .ok e ∧ d.body ≠ e.body := by
  obtain ⟨d, e, declares, declares', faithful⟩ := stringUnion_faithful.2.2
    { enumMode := .stringUnion, disableDescriptions := true } (lettered ["A' | 'B"])
    (lettered ["A", "B"]) rfl rfl rfl rfl rfl
  exact ⟨d, e, declares, declares', fun same => absurd (faithful.1 same) (by decide +kernel)⟩

end EnumForm

end SchemaTypes
