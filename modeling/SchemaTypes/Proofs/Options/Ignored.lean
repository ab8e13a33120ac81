import SchemaTypes.Emission
import SchemaTypes.Proofs.Options.Readings
import SchemaTypes.Proofs.Results

namespace SchemaTypes

namespace Options

variable {name : Text} {ms : List (Text × Json)}

theorem Key.mem_all (k : Key) : k ∈ Key.all := by
  cases k with
  | flag f => cases f <;> decide
  | aliasBody a => cases a <;> decide
  | _ => decide

theorem mem_knownOptions : name ∈ knownOptions ↔ ∃ k : Key, k.name = name := by
  have perm : knownOptions.Perm (Key.all.map (·.name)) := by decide +kernel
  rw [perm.mem_iff, List.mem_map]
  exact exists_congr fun k => and_iff_right k.mem_all

theorem mem_unrecognized : name ∈ unrecognized (.object ms) ↔
    name ∈ ms.map (·.1) ∧ name ∉ knownOptions := by
  rw [unrecognized, List.mem_filter, decide_eq_true_iff]

theorem log_ofMembers (ms : List (Text × Json)) : ∃ names : List Text,
    log (Json.ofMembers ms) =
      names.map (fun name => ⟨.debug, ["ignoring unrecognized option", name]⟩) ∧
    names.Pairwise (· < ·) ∧ ∀ name, name ∈ names ↔ name ∈ ms.map (·.1) ∧ name ∉ knownOptions := by
  obtain ⟨done, made, sorted, keys⟩ := Json.exists_ofMembers ms
  refine ⟨unrecognized (.object done), by rw [made]; rfl, sorted.filter _, fun name => ?_⟩
  rw [mem_unrecognized, keys]

/-- A value of an option that makes a difference. -/
def Key.sample : Key → Json
  | avoidOptionals => .bool true
  | flag _ => .bool true
  | aliasBody _ => .string "Other<T>"
  | defaultScalarType => .string "unknown"
  | scalars => .object [("DateTime", .string "Date")]
  | enumValues => .object [("Role", .object [("ADMIN", .string "admin")])]

theorem ofJson_nothing : Settings.ofJson (.object []) = .ok {} := by decide +kernel

theorem ofJson_sample (k : Key) :
    ∃ s, Settings.ofJson (.object [(k.name, k.sample)]) = .ok s ∧ s ≠ {} := by
  have each : ∀ k ∈ Key.all,
      (Settings.ofJson (.object [(k.name, k.sample)])).toOption.any (· ≠ {}) = true := by
    decide +kernel
  obtain ⟨made, differs⟩ := (Option.any_eq_true_iff_get ..).1 (each k k.mem_all)
  exact ⟨_, ok_get made, by simpa using differs⟩

end Options

open Options

/-- **What is ignored is logged, and is really ignored.** Objects that agree on the known names,
where null is as good as nothing, come to the same settings or the same error. The log names the
members with other names, once each and in order. And no known name is ignored: for each there are
two objects with nothing but a value under that name between them, which come to different
settings. -/
theorem ignored_exactly :
    (∀ ms others : List (Text × Json),
      (∀ name ∈ knownOptions, (Json.object ms).get name = (Json.object others).get name) →
      Settings.ofJson (.object ms) = Settings.ofJson (.object others)) ∧
    (∀ ms : List (Text × Json), ∃ names : List Text,
      Options.log (Json.ofMembers ms) =
        names.map (fun name => ⟨.debug, ["ignoring unrecognized option", name]⟩) ∧
      names.Pairwise (· < ·) ∧
      ∀ name, name ∈ names ↔ name ∈ ms.map (·.1) ∧ name ∉ knownOptions) ∧
    ∀ name ∈ knownOptions, ∃ v s s', Settings.ofJson (.object []) = .ok s ∧
      Settings.ofJson (.object [(name, v)]) = .ok s' ∧ s ≠ s' := by
  refine ⟨fun ms others same => ?_, log_ofMembers, fun name known => ?_⟩
  · exact Settings.ofJson_congr fun k => same k.name (mem_knownOptions.2 ⟨k, rfl⟩)
  · obtain ⟨k, rfl⟩ := mem_knownOptions.1 known
    obtain ⟨s, made, differs⟩ := ofJson_sample k
    exact ⟨k.sample, {}, s, ofJson_nothing, made, differs.symm⟩

namespace Sample

/-- A color, and null for an option, are as good as nothing. -/
theorem color_ignored :
    (∀ name ∈ knownOptions,
      (Json.object [("color", .bool true), ("scalars", .null)]).get name =
        (Json.object []).get name) ∧
      Settings.ofJson (.object [("color", .bool true), ("scalars", .null)]) =
        Settings.ofJson (.object []) := by
  have same : ∀ name ∈ knownOptions,
      (Json.object [("color", .bool true), ("scalars", .null)]).get name =
        (Json.object []).get name := by
    intro name known
    have other : name ≠ "color" := by
      rintro rfl
      exact absurd known (by decide)
    by_cases here : name = "scalars"
    · subst here
      rfl
    · rw [Json.get, List.lookup_cons, beq_false_of_ne other, List.lookup_cons,
        beq_false_of_ne here]
      rfl
  exact ⟨same, ignored_exactly.1 _ _ same⟩

end Sample

end SchemaTypes
