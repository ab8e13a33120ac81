import SchemaTypes.Proofs.Alias.Quotation
import SchemaTypes.Proofs.Render.Levels

/-!
# What the text of a type mentions

The identifiers in the text of a type are the generic types around its leaf and the names that the
leaf is made of. If no type of the schema has the name of an alias, the aliases among them are those
that the text was rendered with.
-/

namespace SchemaTypes

open Text TypeExpr Identifiers

/-- A text that is one identifier. -/
def IsIdentifier (w : Text) : Prop := w ≠ [] ∧ ∀ b ∈ w, isPart b = true

instance (w : Text) : Decidable (IsIdentifier w) :=
  inferInstanceAs (Decidable (w ≠ [] ∧ ∀ b ∈ w, isPart b = true))

/-- An identifier that the inside of a type can be made of: the name of a type, or one of the two
that stand in the texts of scalars and of catch-all arms. -/
def Schema.LeafWord (schema : Schema) (w : Text) : Prop :=
  w ∈ (["Scalars", "__typename"] : List Text) ∨ ∃ t ∈ schema.types, t.name = w

/-- Each type has an identifier for a name, and none has the name of an alias. -/
def Schema.ApartFromAliases (schema : Schema) : Prop :=
  ∀ t ∈ schema.types, Notation.isName t.name = true ∧ t.name ∉ Alias.all.map (·.name)

instance (schema : Schema) : Decidable schema.ApartFromAliases :=
  inferInstanceAs (Decidable (∀ t ∈ schema.types,
    Notation.isName t.name = true ∧ t.name ∉ Alias.all.map (·.name)))

variable {schema : Schema} {s : Settings} {p : Position} {ref : TypeRef}
  {name leaf path rest : Text} {type : Rendered}

theorem isIdentifier_of_isName (h : Notation.isName name = true) : IsIdentifier name := by
  constructor
  · rintro rfl
    cases h
  · intro b mem
    rw [isPart_eq]
    exact continuesWord_of_isWord (isWord_of_isName h) b mem

theorem IsIdentifier.continuesWord (h : IsIdentifier name) :
    ∀ b ∈ name, continuesWord b = true := by
  intro b mem
  rw [← isPart_eq]
  exact h.2 b mem

theorem IsIdentifier.run (h : IsIdentifier name) : Region.code.run name = .code :=
  run_code fun b mem => not_delimiter_of_part (h.2 b mem)

theorem cutAhead_cons {b : UInt8} (stop : isPart b = false) (t : Text) : CutAhead (b :: t) := by
  intro c u eq
  rw [← (List.cons.inj eq).1]
  exact stop

/-- Behind an identifier, a text that does not go on with one is scanned by itself. -/
theorem IsIdentifier.found_append (h : IsIdentifier name) (cut : CutAhead rest) :
    found (name ++ rest) = name :: found rest := by
  rw [found_seam h.run (.inr cut), found_word h.1 h.2, List.singleton_append]

theorem isIdentifier_layers (s : Settings) (p : Position) (ref : TypeRef) :
    ∀ name ∈ ref.layers s p, IsIdentifier name := by
  have words : ∀ name ∈ layerNames, IsIdentifier name := by decide +kernel
  exact fun name mem => words name (layers_subset s p ref mem)

theorem found_nested {layers : List Text} (leaf : Text)
    (words : ∀ name ∈ layers, IsIdentifier name) :
    found (leaf.nested layers) = layers.reverse ++ found leaf := by
  induction layers generalizing leaf with
  | nil => rfl
  | cons name layers ih =>
    obtain ⟨word, words⟩ := List.forall_mem_cons.1 words
    have inside : leaf.nested (name :: layers) =
        (name ++ ('<'.toUInt8 :: (leaf ++ ['>'.toUInt8]))).nested layers := by
      have brackets : ("<" : Text) = ['<'.toUInt8] ∧ (">" : Text) = ['>'.toUInt8] := ⟨rfl, rfl⟩
      simp [Text.nested, brackets]
    have opening : Cut ['<'.toUInt8] := .inr ⟨[], _, rfl, by decide⟩
    have code : Region.code.run ['<'.toUInt8] = .code := rfl
    have brackets : found ('<'.toUInt8 :: (leaf ++ ['>'.toUInt8])) = found leaf := by
      rw [← List.singleton_append, found_seam code (.inl opening),
        found_append_singleton (by decide)]
      rfl
    rw [inside, ih _ words, word.found_append (cutAhead_cons (by decide) _), brackets,
      List.reverse_cons, List.append_assoc, List.singleton_append]

theorem found_scalarText (word : IsIdentifier name) : found (scalarText name) = ["Scalars"] := by
  have pieces : ("Scalars['" : Text) = "Scalars[" ++ "'" ∧ ("']" : Text) = "'" ++ "]" := ⟨rfl, rfl⟩
  have text : scalarText name = "Scalars[" ++ (quoted name ++ "]") := by
    rw [quoted_of_continuesWord word.continuesWord]
    simp [scalarText, pieces]
  have code : Region.code.run "Scalars[" = .code := by decide
  rw [text, Identifiers.found_append code]
  decide +kernel

theorem ending_interpolation (word : IsIdentifier name) :
    Ending backquote ("$\x7b" ++ (name ++ "\x7d`")) := by
  have closing : Ending backquote "\x7d`" := .cons .last (by decide) (by decide)
  have inside (t : Text) (words : ∀ b ∈ t, continuesWord b = true) :
      Ending backquote (t ++ "\x7d`") := by
    induction t with
    | nil => exact closing
    | cons b t ih =>
      obtain ⟨first, later⟩ := List.forall_mem_cons.1 words
      exact (ih later).cons (ne_of_continuesWord first (by decide))
        (ne_of_continuesWord first (by decide))
  exact .cons (.cons (inside name word.continuesWord) (by decide) (by decide)) (by decide)
    (by decide)

theorem found_enumText (word : IsIdentifier name) : found (enumText s name) = [name] := by
  unfold enumText
  split
  · have text : name ++ " | `$\x7b" ++ name ++ "\x7d`" =
        name ++ " | " ++ (backquote :: ("$\x7b" ++ (name ++ "\x7d`"))) := by
      have pieces : (" | `$\x7b" : Text) = " | " ++ ([backquote] ++ "$\x7b") := rfl
      simp [pieces]
    have code : Region.code.run (name ++ " | ") = .code := by
      rw [Region.run_append, word.run]
      rfl
    have literal := found_literal (by decide) (ending_interpolation word) code []
    rw [List.append_nil] at literal
    have bar : CutAhead " | " := cutAhead_cons (by decide) _
    have none : found " | " = [] := by decide +kernel
    rw [text, literal, word.found_append bar, none]
    rfl
  · exact found_word word.1 word.2

theorem found_catchAllArm (members : List Text) : found (catchAllArm members) = ["__typename"] := by
  have code : Region.code.run "\x7b __typename?: " = .code := by decide
  rw [catchAllArm, List.append_assoc, Identifiers.found_append code]
  decide +kernel

theorem found_joined {arms : List Text} (codes : ∀ arm ∈ arms, Region.code.run arm = .code) :
    found (joined " | " arms) = arms.flatMap found := by
  induction arms with
  | nil => rfl
  | cons first arms ih =>
    obtain ⟨code, codes⟩ := List.forall_mem_cons.1 codes
    cases arms with
    | nil => simp [joined]
    | cons second arms =>
      have bar : Region.code.run " | " = .code := by decide
      have cut : Cut " | " := .inr ⟨" |", space, rfl, by decide⟩
      have ahead : CutAhead (" | " ++ joined " | " (second :: arms)) := cutAhead_cons (by decide) _
      have text : joined " | " (first :: second :: arms) =
          first ++ (" | " ++ joined " | " (second :: arms)) :=
        List.intercalate_cons_cons.trans (List.append_assoc ..)
      rw [text, found_seam code (.inr ahead), found_seam bar (.inl cut), ih codes]
      rfl

theorem found_unionText {arms : List Text} (nonempty : arms ≠ [])
    (codes : ∀ arm ∈ arms, Region.code.run arm = .code) :
    found (unionText arms) = arms.flatMap found := by
  rw [unionText, if_neg nonempty, found_joined codes]

theorem run_catchAllArm (members : List Text) : Region.code.run (catchAllArm members) = .code := by
  have opening : Region.code.run "\x7b __typename?: " = .code := by decide
  have literal : Region.code.run (quoted (fresh futureAddedValue members)) = .code :=
    ((ending_quoted _).closes.scanned (by decide)).1
  rw [catchAllArm, Region.run_append, Region.run_append, opening, literal]
  decide

theorem found_arms {names : List Text} (nonempty : names ≠ [])
    (named : ∀ name ∈ names, IsIdentifier name ∧ ∃ t ∈ schema.types, t.name = name) :
    ∀ w ∈ found (unionText (s.arms names)), schema.LeafWord w := by
  have each : ∀ name ∈ names,
      Region.code.run name = .code ∧ ∀ w ∈ found name, schema.LeafWord w := by
    intro name mem
    obtain ⟨word, known⟩ := named name mem
    rw [found_word word.1 word.2]
    refine ⟨word.run, fun w mem => ?_⟩
    rw [List.mem_singleton.1 mem]
    exact .inr known
  have arms : ∀ arm ∈ s.arms names,
      Region.code.run arm = .code ∧ ∀ w ∈ found arm, schema.LeafWord w := by
    unfold Settings.arms
    split
    · refine List.forall_mem_append.2 ⟨each, fun arm mem => ?_⟩
      rw [List.mem_singleton.1 mem, found_catchAllArm]
      exact ⟨run_catchAllArm names, fun w mem => .inl (.tail _ mem)⟩
    · exact each
  have nonempty : s.arms names ≠ [] := by
    unfold Settings.arms
    split
    · simp
    · exact nonempty
  intro w mem
  rw [found_unionText nonempty fun arm mem => (arms arm mem).1] at mem
  obtain ⟨arm, inside, mem⟩ := List.mem_flatMap.1 mem
  exact (arms arm inside).2 w mem

/-- The identifiers of what a name stands for are names of types, but for two. -/
theorem found_leaf {leaf : Leaf} (named : ∀ t ∈ schema.types, IsIdentifier t.name)
    (stands : schema.leaf? s name = some leaf) : ∀ w ∈ found (leaf.text s), schema.LeafWord w := by
  have own {t : TypeDefinition} (found : schema.find? name = some t) :
      IsIdentifier name ∧ ∃ t ∈ schema.types, t.name = name := by
    obtain ⟨mem, rfl⟩ := Schema.find?_eq_some_iff.1 found
    exact ⟨named t mem, t, mem, rfl⟩
  obtain ⟨rfl, scalar⟩ | ⟨rfl | rfl, t, known, -⟩ | ⟨some, rfl⟩ := leaf?_cases stands
  · have word : IsIdentifier name := by
      rcases scalar with builtIn | ⟨t, known, -⟩
      · have words : ∀ name ∈ Schema.builtInScalars, IsIdentifier name := by decide +kernel
        exact words name builtIn
      · exact (own known).1
    intro w mem
    change w ∈ found (scalarText name) at mem
    rw [found_scalarText word] at mem
    exact .inl (List.mem_singleton.1 mem ▸ .head _)
  · intro w mem
    change w ∈ found (enumText s name) at mem
    rw [found_enumText (own known).1] at mem
    exact .inr (List.mem_singleton.1 mem ▸ (own known).2)
  · intro w mem
    have word := (own known).1
    rw [Leaf.text, found_word word.1 word.2] at mem
    exact .inr (List.mem_singleton.1 mem ▸ (own known).2)
  · rw [Leaf.text_implementors some]
    refine found_arms some fun implementor mem => ?_
    obtain ⟨t, implements, rfl⟩ := List.mem_map.1 mem
    have known := (Schema.mem_implementationsOf.1 implements).1.1
    exact ⟨named t known, t, known, rfl⟩

/-- **The aliases that a type uses are those that its text mentions**, if no type of the schema has
the name of one. -/
theorem mem_used_iff_mentioned (named : schema.ApartFromAliases)
    (h : typeText schema s p ref path = .ok type) {a : Alias} :
    a ∈ type.used ↔ a ∈ Alias.mentionedIn type.text := by
  obtain ⟨leaf, made, -⟩ := map_eq_ok.1 h
  obtain ⟨type', written, around⟩ := typeText_around (p := p) made
  obtain rfl : type = type' := Except.ok.inj (h.symm.trans written)
  have apart : a.name ∉ found leaf := by
    intro mem
    rw [leafText_eq] at made
    cases stands : schema.leaf? s ref.leaf with
    | none =>
      rw [stands] at made
      cases made
    | some l =>
      rw [stands] at made
      cases made
      have words : ∀ t ∈ schema.types, IsIdentifier t.name :=
        fun t mem => isIdentifier_of_isName (named t mem).1
      rcases found_leaf words stands a.name mem with fixed | ⟨t, known, same⟩
      · exact absurd fixed (by cases a <;> decide)
      · exact (named t known).2 (List.mem_map.2 ⟨a, a.mem_all, same.symm⟩)
  rw [around.used, mem_mentionedIn, around.text, found_nested leaf (isIdentifier_layers s p ref)]
  simp [apart]

end SchemaTypes
