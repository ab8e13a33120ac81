import SchemaTypes.Proofs.Render.TypeText

/-!
# The levels of a type

What is written for a reference is the text of its leaf inside generic types: one for each list and
for each level that may be null, and where that is asked for one around the leaf and one around the
whole.
-/

namespace SchemaTypes

/-- A text inside generic types, which are given from the inside out. -/
def Text.nested (leaf : Text) (layers : List Text) : Text :=
  layers.foldl (fun inner name => name ++ "<" ++ inner ++ ">") leaf

/-- A generic type that is there under a condition. -/
def layerIf (condition : Bool) (name : Text) : List Text := if condition then [name] else []

/-- The generic type around values that may be null. -/
def nullableLayer (p : Position) : Text := if p = .output then "Maybe" else "InputMaybe"

/-- The generic type of lists. -/
def listLayer (s : Settings) : Text := if s.immutableTypes then "ReadonlyArray" else "Array"

namespace TypeRef

/-- The generic types for the levels of a reference, from the inside out. -/
def levelLayers (s : Settings) (p : Position) : TypeRef → List Text
  | named _ nullable => layerIf nullable (nullableLayer p)
  | list inner nullable =>
    inner.levelLayers s p ++ [listLayer s] ++ layerIf nullable (nullableLayer p)

/-- All generic types around the leaf of a reference, from the inside out. -/
def layers (s : Settings) (p : Position) (ref : TypeRef) : List Text :=
  layerIf (p == .output && s.wrapFieldDefinitions) "FieldWrapper" ++ ref.levelLayers s p ++
    layerIf (p == .output && s.wrapEntireFieldDefinitions) "EntireFieldWrapper"

end TypeRef

variable {schema : Schema} {s : Settings} {p : Position} {ref other : TypeRef}
  {leaf path : Text} {layers layers' : List Text}

/-- The names of all generic types that a layer can be. -/
def layerNames : List Text :=
  ["Maybe", "InputMaybe", "FieldWrapper", "EntireFieldWrapper", "Array", "ReadonlyArray"]

theorem layers_subset (s : Settings) (p : Position) (ref : TypeRef) :
    ref.layers s p ⊆ layerNames := by
  have layer {condition : Bool} {name : Text} (known : name ∈ layerNames) :
      layerIf condition name ⊆ layerNames := by
    cases condition <;> simp [layerIf, known]
  have nullable : nullableLayer p ∈ layerNames := by cases p <;> decide
  have list : listLayer s ∈ layerNames := by
    unfold listLayer
    cases s.immutableTypes <;> decide
  have levels : ref.levelLayers s p ⊆ layerNames := by
    induction ref with
    | named _ n => exact layer nullable
    | list inner n ih =>
      have lists : [listLayer s] ⊆ layerNames := by simpa using list
      exact List.append_subset.2 ⟨List.append_subset.2 ⟨ih, lists⟩, layer nullable⟩
  exact List.append_subset.2
    ⟨List.append_subset.2 ⟨layer (by decide), levels⟩, layer (by decide)⟩

theorem nested_append (leaf : Text) (layers layers' : List Text) :
    leaf.nested (layers ++ layers') = (leaf.nested layers).nested layers' :=
  List.foldl_append ..

/-- A text is that of a leaf inside some generic types, and the aliases used in it are those among
them. -/
structure Rendered.Around (leaf : Text) (layers : List Text) (r : Rendered) : Prop where
  text : r.text = leaf.nested layers
  used : ∀ a : Alias, a ∈ r.used ↔ a.name ∈ layers

namespace Rendered.Around

variable {r : Rendered}

theorem bare (leaf : Text) : Around leaf [] ⟨leaf, .empty⟩ where
  text := rfl
  used a := by simp

theorem wrappedIf (h : Around leaf layers r) (condition : Bool) (a : Alias) :
    Around leaf (layers ++ layerIf condition a.name) (r.wrappedIf condition a) := by
  cases condition with
  | false => simpa [Rendered.wrappedIf, layerIf] using h
  | true =>
    constructor
    · rw [nested_append, ← h.text]
      rfl
    · intro b
      have same : b = a ↔ b.name = a.name := by cases a <;> cases b <;> decide
      show b ∈ r.used.insert a ↔ _
      simp [h.used, same, layerIf, or_comm]

theorem array (h : Around leaf layers r) (s : Settings) :
    Around leaf (layers ++ [listLayer s]) (r.array s.immutableTypes) := by
  constructor
  · rw [nested_append, ← h.text]
    unfold Rendered.array listLayer
    cases s.immutableTypes <;> rfl
  · intro a
    have other : a.name ≠ listLayer s := by
      unfold listLayer
      cases s.immutableTypes <;> cases a <;> decide
    show a ∈ r.used ↔ _
    simp [h.used, other]

end Rendered.Around

theorem levelsText_around (s : Settings) (p : Position) (leaf : Text) (ref : TypeRef) :
    (levelsText s p leaf ref).Around leaf
      (layerIf (p == .output && s.wrapFieldDefinitions) "FieldWrapper" ++
        ref.levelLayers s p) := by
  have name : nullableLayer p = p.nullableAlias.name := by cases p <;> rfl
  induction ref with
  | named _ nullable =>
    have inside := (Rendered.Around.bare leaf).wrappedIf (p == .output && s.wrapFieldDefinitions)
      .fieldWrapper
    rw [TypeRef.levelLayers, name]
    exact inside.wrappedIf nullable p.nullableAlias
  | list inner nullable ih =>
    rw [TypeRef.levelLayers, name, ← List.append_assoc, ← List.append_assoc]
    exact (ih.array s).wrappedIf nullable p.nullableAlias

theorem typeText_around (made : leafText schema s ref.leaf path = .ok leaf) :
    ∃ type, typeText schema s p ref path = .ok type ∧ type.Around leaf (ref.layers s p) := by
  refine ⟨_, ?_, (levelsText_around s p leaf ref).wrappedIf
    (p == .output && s.wrapEntireFieldDefinitions) .entireFieldWrapper⟩
  rw [typeText, made]
  rfl

theorem leafText_of_ok {name : Text} (made : leafText schema s name path = .ok leaf)
    (path' : Text) : leafText schema s name path' = .ok leaf := by
  unfold leafText at made ⊢
  cases found : schema.find? name with
  | none =>
    rw [found] at made
    dsimp only at made ⊢
    split at made
    · rename_i builtIn
      rw [if_pos builtIn, made]
    · cases made
  | some t =>
    rw [found] at made
    exact made

/-! ## Reading the layers off a text -/

theorem joined_append_singleton (separator : Text) (texts : List Text) (last : Text) :
    Text.joined separator (texts ++ [last]) = texts.flatMap (· ++ separator) ++ last := by
  induction texts with
  | nil => simp [Text.joined]
  | cons first texts ih =>
    rw [List.cons_append, Text.joined_cons, List.flatMap_cons, List.append_assoc, ← ih]
    cases texts with
    | nil => simp [Text.joined]
    | cons second texts => simp [Text.joined_cons]

/-- The opening brackets stand between the generic types and the leaf, and all closing ones behind
it. -/
theorem nested_eq (leaf : Text) (layers : List Text) :
    leaf.nested layers = Text.joined "<"
      (layers.reverse ++ [leaf ++ List.replicate layers.length '>'.toUInt8]) := by
  rw [joined_append_singleton]
  induction layers generalizing leaf with
  | nil => simp [Text.nested]
  | cons name layers ih =>
    have step : leaf.nested (name :: layers) = (name ++ "<" ++ leaf ++ ">").nested layers := rfl
    have closing : (">" : Text) = ['>'.toUInt8] := rfl
    rw [step, ih, closing]
    simp [List.replicate_succ]

/-- Cutting a text at its opening brackets gives the generic types, since none of them stands in a
name or in the leaf. -/
theorem nested_inj (names : layers ⊆ layerNames) (names' : layers' ⊆ layerNames)
    (plain : '<'.toUInt8 ∉ leaf) (same : leaf.nested layers = leaf.nested layers') :
    layers = layers' := by
  have free : ∀ name ∈ layerNames, '<'.toUInt8 ∉ name := by decide
  have cut {layers : List Text} (names : layers ⊆ layerNames) :
      (leaf.nested layers).splitOn '<'.toUInt8 =
        layers.reverse ++ [leaf ++ List.replicate layers.length '>'.toUInt8] := by
    rw [nested_eq]
    refine List.splitOn_intercalate _ (fun part mem => ?_) (by simp)
    rcases List.mem_append.1 mem with layer | last
    · exact free part (names (List.mem_reverse.1 layer))
    · rw [List.mem_singleton.1 last]
      intro inside
      rcases List.mem_append.1 inside with here | closing
      · exact plain here
      · exact absurd (List.eq_of_mem_replicate closing) (by decide)
  have pieces := cut names
  rw [same, cut names'] at pieces
  exact (List.reverse_injective (List.append_inj' pieces rfl).1).symm

theorem layerIf_inj {condition condition' : Bool} {name : Text}
    (h : layerIf condition name = layerIf condition' name) : condition = condition' := by
  cases condition <;> cases condition' <;> simp_all [layerIf]

theorem listLayer_ne (s : Settings) (p : Position) : listLayer s ≠ nullableLayer p := by
  unfold listLayer
  cases s.immutableTypes <;> cases p <;> decide

/-- Behind the last list there is at most one more layer, which tells whether that may be null. -/
theorem append_layerIf_inj {before before' : List Text} {nullable nullable' : Bool}
    (h : before ++ [listLayer s] ++ layerIf nullable (nullableLayer p) =
      before' ++ [listLayer s] ++ layerIf nullable' (nullableLayer p)) :
    before = before' ∧ nullable = nullable' := by
  have last (before : List Text) (nullable : Bool) :
      (before ++ [listLayer s] ++ layerIf nullable (nullableLayer p)).getLast? =
        some (if nullable then nullableLayer p else listLayer s) := by
    cases nullable with
    | false => simp [layerIf]
    | true => rw [layerIf, if_pos rfl, if_pos rfl, List.getLast?_concat]
  obtain rfl : nullable = nullable' := by
    have ends := congrArg List.getLast? h
    rw [last, last] at ends
    have different := listLayer_ne s p
    cases nullable <;> cases nullable' <;> simp_all
  exact ⟨List.append_cancel_right (List.append_cancel_right h), rfl⟩

theorem levelLayers_inj (leaf : ref.leaf = other.leaf)
    (h : ref.levelLayers s p = other.levelLayers s p) : ref = other := by
  have noList {nullable : Bool} : listLayer s ∉ layerIf nullable (nullableLayer p) := by
    have different := listLayer_ne s p
    cases nullable <;> simp [layerIf, different]
  have list (inner : TypeRef) (nullable : Bool) :
      listLayer s ∈ (TypeRef.list inner nullable).levelLayers s p := by
    simp [TypeRef.levelLayers]
  induction ref generalizing other with
  | named name nullable =>
    cases other with
    | named name' nullable' => rw [show name = name' from leaf, layerIf_inj h]
    | list inner' nullable' => exact absurd (h ▸ list inner' nullable') noList
  | list inner nullable ih =>
    cases other with
    | named name' nullable' => exact absurd (h ▸ list inner nullable) noList
    | list inner' nullable' =>
      obtain ⟨inside, same⟩ := append_layerIf_inj h
      have within : inner.leaf = inner'.leaf := leaf
      rw [ih within inside, same]

theorem TypeRef.layers_inj (leaf : ref.leaf = other.leaf)
    (h : ref.layers s p = other.layers s p) : ref = other :=
  levelLayers_inj leaf (List.append_cancel_left (List.append_cancel_right h))

/-- **Every level shows.** A reference whose leaf can be written is written as its leaf inside its
layers. If there is no opening bracket in the leaf, then of all references to this leaf no other has
the same text. -/
theorem typeText_keeps_levels (made : leafText schema s ref.leaf path = .ok leaf) :
    ∃ type, typeText schema s p ref path = .ok type ∧
      type.text = leaf.nested (ref.layers s p) ∧
      ('<'.toUInt8 ∉ leaf → ∀ (other : TypeRef) (path' : Text), other.leaf = ref.leaf →
        ∃ type', typeText schema s p other path' = .ok type' ∧
          (type'.text = type.text ↔ other = ref)) := by
  obtain ⟨type, written, around⟩ := typeText_around (p := p) made
  refine ⟨type, written, around.text, fun plain other path' same => ?_⟩
  have made' := leafText_of_ok made path'
  rw [← same] at made'
  obtain ⟨type', written', around'⟩ := typeText_around (p := p) made'
  refine ⟨type', written', fun equal => ?_, ?_⟩
  · rw [around'.text, around.text] at equal
    exact TypeRef.layers_inj same
      (nested_inj (layers_subset s p other) (layers_subset s p ref) plain equal)
  · rintro rfl
    rw [around'.text, around.text]

/-- The same list with required items, which may be missing itself, has a text of its own. -/
theorem Sample.nodes_keep_levels :
    leafText Sample.schema wrapping nodes.leaf "Query.nodes" =
        .ok "Post | User | \x7b __typename?: 'FUTURE_ADDED_VALUE' \x7d" ∧
      '<'.toUInt8 ∉ ("Post | User | \x7b __typename?: 'FUTURE_ADDED_VALUE' \x7d" : Text) ∧
      ∃ type type',
        typeText Sample.schema wrapping .output nodes "Query.nodes" = .ok type ∧
        typeText Sample.schema wrapping .output (.list (.named "Node" false) true) "Query.others" =
          .ok type' ∧
        type'.text ≠ type.text := by
  have made : leafText Sample.schema wrapping nodes.leaf "Query.nodes" =
      .ok "Post | User | \x7b __typename?: 'FUTURE_ADDED_VALUE' \x7d" := by decide +kernel
  have plain : '<'.toUInt8 ∉
      ("Post | User | \x7b __typename?: 'FUTURE_ADDED_VALUE' \x7d" : Text) := by decide +kernel
  obtain ⟨type, written, -, distinct⟩ := typeText_keeps_levels (p := .output) made
  obtain ⟨type', written', same⟩ :=
    distinct plain (.list (.named "Node" false) true) "Query.others" rfl
  exact ⟨made, plain, type, type', written, written', fun equal => by cases same.1 equal⟩

end SchemaTypes
