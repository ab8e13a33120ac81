import SchemaTypes.Proofs.Schema.Notation
import SchemaTypes.Proofs.Schema.Order
import SchemaTypes.Sample

namespace SchemaTypes

/-- An argument stands as one and has no arguments of its own. -/
structure Field.IsArgument (a : Field) : Prop where
  position : a.position = .argument
  plain : a.arguments = []
  named : Notation.isName a.type.leaf = true

/-- A field stands where a kind of types has its fields. Only an output field has arguments, and
only an input field a default value. -/
structure Field.IsFieldOf (k : Kind) (f : Field) : Prop where
  position : Draft.fieldPosition? k = some f.position
  named : Notation.isName f.type.leaf = true
  arguments : ∀ a ∈ f.arguments, a.IsArgument
  output : f.arguments ≠ [] → f.position = .output
  input : f.default?.isSome = true → f.position.isInput = true

/-- The lists of a type hold what goes with its kind. -/
structure TypeDefinition.Formed (t : TypeDefinition) : Prop where
  fields : ∀ f ∈ t.fields, f.IsFieldOf t.kind
  values : t.values ≠ [] → t.kind = .enum
  members : t.members ≠ [] → t.kind = .union
  interfaces : t.interfaces ≠ [] → t.kind = .object

/-- All types of a draft are formed. -/
def Draft.Formed (d : Draft) : Prop := ∀ t ∈ d.types, t.Formed

/-- The draft after some steps. Those that are refused are passed over. -/
def Draft.run (d : Draft) (steps : List Draft.Step) : Draft := steps.foldl attempt d

/-- The schema is built from a draft that some steps write. -/
def Schema.Written (schema : Schema) : Prop :=
  ∃ steps, (Draft.run {} steps).build = .ok schema

namespace Draft

variable {d next : Draft} {t : TypeDefinition} {f : Field} {addition : Addition}

theorem Formed.opening (h : d.Formed) (new : t.Formed) : (d.opening t).Formed := by
  intro u mem
  rcases List.mem_append.1 mem with old | last
  · exact h u old
  · exact List.mem_singleton.1 last ▸ new

theorem Formed.replacing (h : d.Formed) (new : t.Formed) : (d.replacing t).Formed := by
  intro u mem
  rcases List.mem_append.1 mem with old | last
  · exact h u (List.dropLast_subset _ old)
  · exact List.mem_singleton.1 last ▸ new

theorem Formed.replacingField (h : d.Formed) (formed : t.Formed) (new : f.IsFieldOf t.kind) :
    (d.replacingField t f).Formed := by
  refine h.replacing { formed with fields := fun g mem => ?_ }
  rcases List.mem_append.1 mem with old | last
  · exact formed.fields g (List.dropLast_subset _ old)
  · exact List.mem_singleton.1 last ▸ new

theorem Formed.current (h : d.Formed) (found : d.current addition = .ok t) : t.Formed := by
  unfold Draft.current at found
  split at found
  · cases found
  · rename_i last
    cases found
    exact h _ (List.mem_of_getLast? last)

theorem Formed.currentField (h : d.Formed) (found : d.current addition = .ok t)
    (field : d.currentField addition = .ok f) : f.IsFieldOf t.kind := by
  obtain ⟨u, again, field⟩ := bind_eq_ok.1 field
  obtain rfl : t = u := Except.ok.inj (found.symm.trans again)
  split at field
  · cases field
  · rename_i last
    cases field
    exact (h.current found).fields _ (List.mem_of_getLast? last)

theorem isName_of_readType {source : Text} {ref : TypeRef} (h : readType source = .ok ref) :
    Notation.isName ref.leaf = true := by
  unfold readType Except.mapError at h
  split at h
  · cases h
  · rename_i made
    cases h
    exact (TypeRef.parse_eq_ok_iff.1 made).1

theorem formed_of_field {name type description : Text} (h : d.Formed)
    (made : d.field name type description = .ok next) : next.Formed := by
  obtain ⟨t, found, made⟩ := bind_eq_ok.1 made
  obtain ⟨ref, read, made⟩ := bind_eq_ok.1 made
  split at made
  · cases made
  · rename_i position stands
    cases made
    have formed := h.current found
    refine h.replacing { formed with fields := fun f mem => ?_ }
    rcases List.mem_append.1 mem with old | last
    · exact formed.fields f old
    · obtain rfl := List.mem_singleton.1 last
      exact ⟨stands, isName_of_readType read, by simp, by simp, by simp⟩

theorem formed_of_value {name literal description : Text} (h : d.Formed)
    (made : d.value name literal description = .ok next) : next.Formed := by
  obtain ⟨t, found, made⟩ := bind_eq_ok.1 made
  split at made
  · rename_i enum
    cases made
    exact h.replacing { h.current found with values := fun _ => enum }
  · cases made

theorem formed_of_argument {name type : Text} {default? : Option Text} (h : d.Formed)
    (made : d.argument name type default? = .ok next) : next.Formed := by
  obtain ⟨t, found, made⟩ := bind_eq_ok.1 made
  obtain ⟨f, field, made⟩ := bind_eq_ok.1 made
  split at made
  · rename_i output
    obtain ⟨ref, read, made⟩ := bind_eq_ok.1 made
    cases made
    have old := h.currentField found field
    refine h.replacingField (h.current found)
      { old with arguments := fun a mem => ?_, output := fun _ => output }
    rcases List.mem_append.1 mem with before | last
    · exact old.arguments a before
    · obtain rfl := List.mem_singleton.1 last
      exact ⟨rfl, rfl, isName_of_readType read⟩
  · cases made

theorem formed_of_defaultValue {literal : Text} (h : d.Formed)
    (made : d.defaultValue literal = .ok next) : next.Formed := by
  obtain ⟨t, found, made⟩ := bind_eq_ok.1 made
  obtain ⟨f, field, made⟩ := bind_eq_ok.1 made
  split at made
  · rename_i input
    cases made
    have old := h.currentField found field
    exact h.replacingField (h.current found) { old with input := fun _ => input }
  · cases made

/-- A step keeps the types of a draft formed. -/
theorem formed_of_apply {step : Step} (h : d.Formed) (made : d.apply step = .ok next) :
    next.Formed := by
  cases step with
  | field name type description => exact formed_of_field h made
  | value name literal description => exact formed_of_value h made
  | argument name type default? => exact formed_of_argument h made
  | defaultValue literal => exact formed_of_defaultValue h made
  | _ =>
    cases made
    exact h.opening ⟨by simp, by simp, by simp, by simp⟩

theorem formed_attempt (h : d.Formed) (step : Step) : (d.attempt step).Formed := by
  unfold attempt
  split
  · rename_i made
    exact formed_of_apply h made
  · exact h

/-- Whatever steps are taken, and whichever of them are refused, the types of a draft stay
formed. -/
theorem formed_run (h : d.Formed) (steps : List Step) : (d.run steps).Formed := by
  induction steps generalizing d with
  | nil => exact h
  | cons step steps ih => exact ih (formed_attempt h step)

theorem run_of_foldlM {steps : List Step} (h : steps.foldlM apply d = .ok next) :
    d.run steps = next := by
  induction steps generalizing d with
  | nil => exact Except.ok.inj h
  | cons step steps ih =>
    rw [List.foldlM_cons] at h
    obtain ⟨after, made, rest⟩ := bind_eq_ok.1 h
    have first : d.attempt step = after := by rw [attempt, made]
    rw [run, List.foldl_cons, first]
    exact ih rest

end Draft

theorem Schema.formed_of_written {schema : Schema} (h : schema.Written) :
    ∀ t ∈ schema.types, t.Formed := by
  obtain ⟨steps, built⟩ := h
  rw [types_of_ofList built]
  exact Draft.formed_run (fun t mem => absurd mem List.not_mem_nil) steps

namespace Sample

theorem written : Sample.schema.Written := by
  refine ⟨steps, ?_⟩
  have made : steps.foldlM Draft.apply {} = .ok draft := ok_get isSome_draft?
  rw [Draft.run_of_foldlM made]
  exact ok_get isSome_build

end Sample

end SchemaTypes
