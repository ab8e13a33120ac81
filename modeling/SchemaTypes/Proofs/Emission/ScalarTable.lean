import SchemaTypes.Proofs.Schema.Notation
import SchemaTypes.Proofs.Schema.Order
import SchemaTypes.Proofs.Text.Comment
import SchemaTypes.Render.Types

/-!
# The table of scalars

The table has one entry for each scalar. Where names and types are plain, the entry of a name is the
one line of the table that begins with that name.
-/

namespace SchemaTypes

namespace Text

/-- The lines of a text that begin with some bytes. -/
def linesWith (front t : Text) : List Text := (t.splitOn lineFeed).filter (front.isPrefixOf ·)

/-- Whatever comes behind a text, these are its own lines among those that begin with some bytes. -/
def Yields (front t : Text) (found : List Text) : Prop :=
  ∀ rest, linesWith front (t ++ rest) = found ++ linesWith front rest

variable {front line t u : Text} {found found' : List Text}

theorem Yields.nil : Yields front [] [] := fun _ => rfl

theorem Yields.append (h : Yields front t found) (h' : Yields front u found') :
    Yields front (t ++ u) (found ++ found') := by
  intro rest
  rw [List.append_assoc, h, h', List.append_assoc]

theorem Yields.flatMap {α : Type} {f : α → Text} {g : α → List Text} {l : List α}
    (each : ∀ a ∈ l, Yields front (f a) (g a)) : Yields front (l.flatMap f) (l.flatMap g) := by
  induction l with
  | nil => exact .nil
  | cons a l ih =>
    obtain ⟨first, later⟩ := List.forall_mem_cons.1 each
    exact first.append (ih later)

theorem yields_line (plain : lineFeed ∉ line) :
    Yields front (line ++ "\n") (if front.isPrefixOf line then [line] else []) := by
  intro rest
  have whole : line ++ "\n" ++ rest = line ++ lineFeed :: rest := by
    rw [List.append_assoc]
    rfl
  rw [whole, linesWith, List.splitOn_append_cons_self_of_not_mem plain, List.filter_cons]
  split <;> rfl

theorem yields_other (plain : lineFeed ∉ line) (other : ¬ front <+: line) :
    Yields front (line ++ "\n") [] := by
  have own : Yields front (line ++ "\n") (if front.isPrefixOf line then [line] else []) :=
    yields_line plain
  rwa [if_neg (by rwa [List.isPrefixOf_iff_prefix])] at own

theorem not_prefix_of_ne {x y z : Text} {b c : UInt8} (other : b ≠ c) :
    ¬ x ++ b :: y <+: x ++ c :: z := by
  rw [List.prefix_append_right_inj, List.cons_prefix_cons]
  exact fun both => other both.1

theorem yields_indented {indent : Nat} {b c : UInt8} {more : Text} (other : b ≠ c)
    (plain : lineFeed ∉ c :: line) :
    Yields (spaces indent ++ b :: more) (spaces indent ++ c :: line ++ "\n") [] := by
  refine yields_other ?_ (not_prefix_of_ne other)
  rw [List.mem_append, not_or]
  exact ⟨lineFeed_not_mem_spaces indent, plain⟩

/-- The lines of a comment go on with a slash or a blank behind their indent. -/
theorem yields_comment {b : UInt8} (noSlash : b ≠ '/'.toUInt8) (noBlank : b ≠ space)
    (more description : Text) (indent : Nat) :
    Yields (spaces indent ++ b :: more) (comment description indent) [] := by
  by_cases empty : description = []
  · subst empty
    exact .nil
  rcases comment_cases empty indent with ⟨line, single, eq⟩ | eq
  · have plain : lineFeed ∉ line := by
      refine lineFeed_not_mem_escaped (t := description) ?_
      rw [single]
      exact .head _
    have free : lineFeed ∉ ("/** " ++ line ++ " */" : Text) := by
      simp only [List.mem_append, not_or]
      exact ⟨⟨by decide, plain⟩, by decide⟩
    have whole : comment description indent =
        spaces indent ++ ("/** " ++ line ++ " */") ++ "\n" := by
      rw [eq]
      simp only [List.append_assoc]
      rfl
    rw [whole]
    exact yields_indented noSlash free
  · have opening : Yields (spaces indent ++ b :: more) (spaces indent ++ "/**" ++ "\n") [] :=
      yields_indented noSlash (by decide)
    have closing : Yields (spaces indent ++ b :: more) (spaces indent ++ " */" ++ "\n") [] :=
      yields_indented noBlank (by decide)
    have each : ∀ line ∈ (lines description).map withoutClosers,
        Yields (spaces indent ++ b :: more) (blockLine (spaces indent) line) [] := by
      intro line mem
      rw [blockLine_eq]
      refine yields_other (lineFeed_not_mem_starred (lineFeed_not_mem_spaces indent)
        (lineFeed_not_mem_escaped mem)) ?_
      rw [starred, List.append_assoc]
      exact not_prefix_of_ne noBlank
    have whole : comment description indent = spaces indent ++ "/**" ++ "\n" ++
        ((lines description).map withoutClosers).flatMap (blockLine (spaces indent)) ++
          (spaces indent ++ " */" ++ "\n") := by
      rw [eq]
      simp only [List.append_assoc]
      rfl
    have block := Yields.flatMap each
    rw [List.flatMap_eq_nil_iff.2 fun _ _ => rfl] at block
    rw [whole]
    exact (opening.append block).append closing

end Text

open Text

/-- An entry in the table of scalars: the comment of a description unless descriptions are left out,
then the name and its type. -/
def Settings.scalarRow (s : Settings) (name description : Text) : Text :=
  (if s.disableDescriptions then [] else Text.comment description 2) ++
    "  " ++ name ++ ": " ++ scalarType s name ++ ";\n"

def scalarsComment : Text :=
  "/** All built-in and custom scalars, mapped to their actual values */\n"

/-- What stands before the entries: the comment of the table and `export` where they are asked for,
and its name. -/
def Settings.scalarOpening (s : Settings) : Text :=
  (if s.disableDescriptions then [] else scalarsComment) ++
    (if s.noExport then [] else ("export " : Text)) ++ "type Scalars = \x7b\n"

/-- The table of scalars with the given entries, each a name and a description. -/
def Settings.scalarTable (s : Settings) (entries : List (Text × Text)) : Text :=
  s.scalarOpening ++ entries.flatMap (fun x => s.scalarRow x.1 x.2) ++ "\x7d;"

/-- The scalars of a schema have names of letters, digits and `_`, none of them beginning with a
digit, and the types that are set for scalars stand on one line each. -/
structure Schema.PlainScalars (schema : Schema) (s : Settings) : Prop where
  names : ∀ t ∈ schema.types, t.kind = .scalar → Notation.isName t.name = true
  types : ∀ x ∈ s.scalars, lineFeed ∉ x.2
  default : lineFeed ∉ s.defaultScalarType

variable {schema : Schema} {s : Settings} {name : Text} {entries : List (Text × Text)}

theorem comment_scalars :
    Text.comment "All built-in and custom scalars, mapped to their actual values" 0 =
      scalarsComment := by
  decide +kernel

theorem body_scalarsDeclaration (schema : Schema) (s : Settings) :
    (scalarsDeclaration schema s).body = s.scalarTable (scalarEntries schema) := by
  simp only [scalarsDeclaration, objectTypeText, Settings.scalarTable, Settings.scalarOpening,
    Settings.comment, comment_scalars, List.append_assoc]
  rfl

theorem exists_scalarTable_append (s : Settings) (front back : List (Text × Text)) :
    ∃ x y : Text, ∀ more : List (Text × Text), s.scalarTable (front ++ more ++ back) =
      x ++ more.flatMap (fun e => s.scalarRow e.1 e.2) ++ y := by
  refine ⟨s.scalarOpening ++ front.flatMap fun e => s.scalarRow e.1 e.2,
    back.flatMap (fun e => s.scalarRow e.1 e.2) ++ "\x7d;", fun more => ?_⟩
  simp only [Settings.scalarTable, List.flatMap_append, List.append_assoc]

theorem scalarNames_eq : (scalarEntries schema).map (·.1) = Schema.builtInScalars ++
    ((schema.ofKind .scalar).map (·.name)).filter (· ∉ Schema.builtInScalars) := by
  unfold scalarEntries
  rw [List.map_append, List.map_map, List.map_map, List.filter_map]
  rfl

/-- No two entries in the table of scalars have the same name. -/
theorem nodup_scalarNames : ((scalarEntries schema).map (·.1)).Nodup := by
  rw [scalarNames_eq, List.nodup_append]
  have distinct : ((schema.ofKind .scalar).map (·.name)).Nodup :=
    ((schema.perm_ofKind .scalar).map _).nodup_iff.2 (schema.distinct_kind .scalar)
  refine ⟨by decide, distinct.filter _, ?_⟩
  rintro builtIn mem added mem' rfl
  simpa [mem] using (List.mem_filter.1 mem').2

theorem mem_scalarNames (h : name ∈ Schema.builtInScalars ∨
    ∃ t, schema.find? name = some t ∧ t.kind = .scalar) :
    name ∈ (scalarEntries schema).map (·.1) := by
  rw [scalarNames_eq, List.mem_append, List.mem_filter]
  by_cases builtIn : name ∈ Schema.builtInScalars
  · exact .inl builtIn
  · obtain ⟨t, found, kind⟩ := h.resolve_left builtIn
    obtain ⟨mem, rfl⟩ := Schema.find?_eq_some_iff.1 found
    exact .inr ⟨List.mem_map_of_mem (Schema.mem_ofKind.2 ⟨mem, kind⟩), by simpa using builtIn⟩

namespace Schema.PlainScalars

theorem isName_of_mem (plain : schema.PlainScalars s)
    (mem : name ∈ (scalarEntries schema).map (·.1)) : Notation.isName name = true := by
  rw [scalarNames_eq, List.mem_append] at mem
  rcases mem with builtIn | added
  · have each : ∀ name ∈ Schema.builtInScalars, Notation.isName name = true := by decide
    exact each name builtIn
  · obtain ⟨t, inside, rfl⟩ := List.mem_map.1 (List.mem_filter.1 added).1
    obtain ⟨mem, kind⟩ := Schema.mem_ofKind.1 inside
    exact plain.names t mem kind

theorem lineFeed_not_mem_scalarType (plain : schema.PlainScalars s) (name : Text) :
    lineFeed ∉ scalarType s name := by
  have builtIn : ∀ x ∈ builtInTypes, lineFeed ∉ x.2 := by decide
  have listed {table : List (Text × Text)} {type : Text} (found : table.lookup name = some type) :
      (name, type) ∈ table := by
    obtain ⟨before, after, rfl, -⟩ := List.lookup_eq_some_iff.1 found
    exact List.mem_append_right _ (.head _)
  unfold scalarType
  cases chosen : (s.scalars.lookup name).or (builtInTypes.lookup name) with
  | none => exact plain.default
  | some type =>
    rcases Option.or_eq_some_iff.1 chosen with given | ⟨-, known⟩
    · exact plain.types _ (listed given)
    · exact builtIn _ (listed known)

end Schema.PlainScalars

variable {other : Text}

theorem front_prefix_iff (isName : Notation.isName name = true)
    (isName' : Notation.isName other = true) (rest : Text) :
    ("  " ++ name ++ ": " : Text) <+: "  " ++ other ++ ": " ++ rest ↔ other = name := by
  have readBack {n : Text} (isName : Notation.isName n = true) (rest : Text) :
      (("  " ++ n ++ ": " ++ rest : Text).drop 2).takeWhile Notation.continuesName = n := by
    have behind : ("  " ++ n ++ ": " ++ rest : Text).drop 2 = n ++ (": " ++ rest) := by
      simp only [List.append_assoc]
      rfl
    have stops : ∀ b ∈ (": " ++ rest : Text).head?, Notation.continuesName b = false := by
      rintro b ⟨rfl⟩
      decide
    rw [behind, takeWhile_append_of_stops (Notation.continuesName_of_isName isName) stops]
  constructor
  · rintro ⟨more, same⟩
    rw [← readBack isName' rest, ← same, readBack isName]
  · rintro rfl
    exact List.prefix_append _ _

theorem yields_comment_of_name (isName : Notation.isName name = true) (description : Text) :
    Yields ("  " ++ name ++ ": ") (comment description 2) [] := by
  cases name with
  | nil => cases isName
  | cons b name =>
    simp only [Notation.isName, Bool.and_eq_true] at isName
    have noSlash : b ≠ '/'.toUInt8 := by
      rintro rfl
      exact absurd isName.1 (by decide)
    have noBlank : b ≠ space := by
      rintro rfl
      exact absurd isName.1 (by decide)
    exact yields_comment noSlash noBlank (name ++ ": ") description 2

theorem yields_scalarRow (isName : Notation.isName name = true)
    (isName' : Notation.isName other = true) (plain : lineFeed ∉ scalarType s other)
    (description : Text) :
    Yields ("  " ++ name ++ ": ") (s.scalarRow other description)
      (if other = name then ["  " ++ name ++ ": " ++ scalarType s name ++ ";"] else []) := by
  have comment : Yields ("  " ++ name ++ ": ")
      (if s.disableDescriptions then [] else Text.comment description 2) [] := by
    split
    · exact .nil
    · exact yields_comment_of_name isName description
  have free : lineFeed ∉ ("  " ++ other ++ ": " ++ scalarType s other ++ ";" : Text) := by
    have name : lineFeed ∉ other := fun feed =>
      absurd (Notation.continuesName_of_isName isName' _ feed) (by decide)
    simp only [List.mem_append, not_or]
    exact ⟨⟨⟨⟨by decide, name⟩, by decide⟩, plain⟩, by decide⟩
  have begins : ("  " ++ name ++ ": " : Text).isPrefixOf
      ("  " ++ other ++ ": " ++ scalarType s other ++ ";") ↔ other = name := by
    rw [List.isPrefixOf_iff_prefix, List.append_assoc (_ ++ _ ++ _)]
    exact front_prefix_iff isName isName' _
  have whole : s.scalarRow other description =
      (if s.disableDescriptions then [] else Text.comment description 2) ++
        ("  " ++ other ++ ": " ++ scalarType s other ++ ";" ++ "\n") := by
    simp only [Settings.scalarRow, List.append_assoc]
    rfl
  have row := comment.append (yields_line free)
  rw [← whole, List.nil_append] at row
  by_cases same : other = name
  · rw [if_pos (begins.2 same)] at row
    subst same
    rwa [if_pos rfl]
  · rw [if_neg (mt begins.1 same)] at row
    rwa [if_neg same]

/-- The lines before the entries begin without a blank. -/
theorem yields_scalarOpening (s : Settings) (name : Text) :
    Yields ("  " ++ name ++ ": ") s.scalarOpening [] := by
  have other {line : Text} (plain : lineFeed ∉ line) (noBlank : line.head? ≠ some space) :
      Yields ("  " ++ name ++ ": ") (line ++ "\n") [] := by
    refine yields_other plain fun begins => noBlank ?_
    obtain ⟨rest, rfl⟩ := begins
    rfl
  have heading : Yields ("  " ++ name ++ ": ")
      (if s.disableDescriptions then [] else scalarsComment) [] := by
    have line : scalarsComment =
        "/** All built-in and custom scalars, mapped to their actual values */" ++ "\n" := by
      decide +kernel
    split
    · exact .nil
    · rw [line]
      exact other (by decide +kernel) (by decide)
  have exported : Yields ("  " ++ name ++ ": ")
      ((if s.noExport then [] else ("export " : Text)) ++ "type Scalars = \x7b\n") [] := by
    split
    · show Yields _ ("type Scalars = \x7b" ++ "\n") []
      exact other (by decide) (by decide)
    · show Yields _ ("export type Scalars = \x7b" ++ "\n") []
      exact other (by decide) (by decide)
  have both := heading.append exported
  rwa [← List.append_assoc] at both

theorem flatMap_of_name (line : Text) (entries : List (Text × Text)) :
    entries.flatMap (fun x => if x.1 = name then [line] else []) =
      .replicate ((entries.map (·.1)).count name) line := by
  induction entries with
  | nil => rfl
  | cons x entries ih =>
    rw [List.flatMap_cons, ih, List.map_cons, List.count_cons]
    by_cases same : x.1 = name
    · rw [if_pos same, if_pos (beq_iff_eq.2 same), List.replicate_succ, List.singleton_append]
    · rw [if_neg same, if_neg (mt beq_iff_eq.1 same), List.nil_append, Nat.add_zero]

/-- Of plain entries, each has one line that begins with its name. -/
theorem linesWith_scalarTable (isName : Notation.isName name = true)
    (plain : ∀ x ∈ entries, Notation.isName x.1 = true ∧ lineFeed ∉ scalarType s x.1) :
    linesWith ("  " ++ name ++ ": ") (s.scalarTable entries) =
      .replicate ((entries.map (·.1)).count name)
        ("  " ++ name ++ ": " ++ scalarType s name ++ ";") := by
  have rows := Yields.flatMap fun x mem =>
    yields_scalarRow isName (plain x mem).1 (plain x mem).2 x.2
  have closing : linesWith ("  " ++ name ++ ": ") "\x7d;" = [] := by
    rw [linesWith, List.splitOn_eq_singleton (by decide), List.filter_eq_nil_iff]
    intro line mem
    rw [List.mem_singleton.1 mem, List.isPrefixOf_iff_prefix]
    rintro ⟨rest, same⟩
    cases same
  have whole := ((yields_scalarOpening s name).append rows) "\x7d;"
  rwa [closing, flatMap_of_name, List.nil_append, List.append_nil] at whole

/-- Where names and types are plain, each scalar has one line that begins with its name. -/
theorem Schema.PlainScalars.linesWith_name (plain : schema.PlainScalars s)
    (mem : name ∈ (scalarEntries schema).map (·.1)) :
    linesWith ("  " ++ name ++ ": ") (s.scalarTable (scalarEntries schema)) =
      ["  " ++ name ++ ": " ++ scalarType s name ++ ";"] := by
  have each : ∀ x ∈ scalarEntries schema,
      Notation.isName x.1 = true ∧ lineFeed ∉ scalarType s x.1 := fun x inside =>
    ⟨plain.isName_of_mem (List.mem_map_of_mem inside), plain.lineFeed_not_mem_scalarType x.1⟩
  rw [linesWith_scalarTable (plain.isName_of_mem mem) each,
    List.count_eq_one_of_mem nodup_scalarNames mem]
  rfl

end SchemaTypes
