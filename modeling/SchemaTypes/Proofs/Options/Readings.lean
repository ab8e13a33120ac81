import SchemaTypes.Options.Settings
import SchemaTypes.Proofs.Json.Members

/-!
# What is read of the options, and in which order

Reading the options is a sequence of readings, each of one value that should have a certain shape:
of the options as a whole, then of each option in a fixed order, an option with entries right before
them. The first value of another shape is reported.
-/

namespace SchemaTypes

namespace Options

/-- What a value should be. -/
inductive Shape where
  | boolean
  | booleanOrObject
  | string
  | object
  /-- A string in a table, where null is none. -/
  | entry
  /-- An object in a table, where null is none. -/
  | table
  deriving DecidableEq, Repr

/-- Whether a value has a shape. Null is a value that is not given. -/
def Shape.takes : Shape → Json → Bool
  | boolean, .null | boolean, .bool _ => true
  | booleanOrObject, .null | booleanOrObject, .bool _ | booleanOrObject, .object _ => true
  | string, .null | string, .string _ => true
  | object, .null | object, .object _ => true
  | entry, .string _ => true
  | table, .object _ => true
  | _, _ => false

/-- Why a value that does not have a shape cannot be used. -/
def Shape.reason : Shape → Reason
  | boolean => .expectedBoolean
  | booleanOrObject => .expectedBooleanOrObject
  | string => .expectedString
  | object => .expectedObject
  | entry => .expectedString
  | table => .expectedObject

/-- A value that is read, where it is found and what it should be. -/
structure Reading where
  path : Text
  shape : Shape
  value : Json

namespace Reading

/-- The value is what it should be. -/
def Fits (r : Reading) : Prop := r.shape.takes r.value = true

instance (r : Reading) : Decidable r.Fits := inferInstanceAs (Decidable (_ = true))

/-- The error that reports a value. -/
def error (r : Reading) : ConfigurationError := ⟨r.path, r.value.compact, r.shape.reason⟩

/-- The error of a value that is not what it should be. -/
def fault (r : Reading) : Option ConfigurationError := if r.Fits then none else some r.error

end Reading

/-- The members of a value, of which there are none unless it is an object. -/
def members : Json → List (Text × Json)
  | .object ms => ms
  | _ => []

def booleanOptions : List Text :=
  ["enumsAsTypes", "enumsAsConst", "constEnums", "numericEnums", "onlyEnums", "onlyOperationTypes",
    "futureProofEnums", "futureProofUnions", "immutableTypes", "noExport", "disableDescriptions",
    "useImplementingTypes", "wrapFieldDefinitions", "wrapEntireFieldDefinitions",
    "allowEnumStringTypes", "skipTypename", "nonOptionalTypename"]

def stringOptions : List Text :=
  ["maybeValue", "inputMaybeValue", "fieldWrapperValue", "entireFieldWrapperValue",
    "defaultScalarType"]

def avoidEntries : List Text := ["field", "inputValue", "object", "defaultValue"]

def entryReadings (path : Text) (table : Json) : List Reading :=
  (members table).map fun (name, v) => ⟨path ++ "." ++ name, .entry, v⟩

def avoidReadings (v : Json) : List Reading :=
  ⟨"avoidOptionals", .booleanOrObject, v⟩ ::
    avoidEntries.map fun name => ⟨"avoidOptionals." ++ name, .boolean, v.get name⟩

def scalarsReadings (v : Json) : List Reading :=
  ⟨"scalars", .object, v⟩ :: entryReadings "scalars" v

def enumValuesReadings (v : Json) : List Reading :=
  ⟨"enumValues", .object, v⟩ :: (members v).flatMap fun (enum, t) =>
    ⟨"enumValues." ++ enum, .table, t⟩ :: entryReadings ("enumValues." ++ enum) t

/-- All that is read of the options. -/
def readings (raw : Json) : List Reading :=
  ⟨"config", .object, raw⟩ :: avoidReadings (raw.get "avoidOptionals") ++
    booleanOptions.map (fun name => ⟨name, .boolean, raw.get name⟩) ++
    stringOptions.map (fun name => ⟨name, .string, raw.get name⟩) ++
    scalarsReadings (raw.get "scalars") ++ enumValuesReadings (raw.get "enumValues")

/-- The first of some readings that is not what it should be. -/
def FirstOffender (rs : List Reading) (r : Reading) : Prop :=
  ∃ before after, rs = before ++ r :: after ∧ (∀ b ∈ before, b.Fits) ∧ ¬ r.Fits

/-! ## The fault is the first one -/

/-- The first fault among some readings. -/
def firstFault (rs : List Reading) : Option ConfigurationError := rs.findSome? Reading.fault

theorem firstFault_cons (r : Reading) (rs : List Reading) :
    firstFault (r :: rs) = r.fault.or (firstFault rs) := by
  rw [firstFault, List.findSome?_cons]
  cases r.fault <;> rfl

theorem firstFault_append (rs rs' : List Reading) :
    firstFault (rs ++ rs') = (firstFault rs).or (firstFault rs') := List.findSome?_append

theorem firstFault_map {α : Type} (f : α → Reading) (xs : List α) :
    firstFault (xs.map f) = xs.findSome? fun x => (f x).fault := List.findSome?_map ..

theorem firstFault_flatMap {α : Type} (f : α → List Reading) (xs : List α) :
    firstFault (xs.flatMap f) = xs.findSome? fun x => firstFault (f x) := by
  induction xs with
  | nil => rfl
  | cons x xs ih =>
    rw [List.flatMap_cons, firstFault_append, List.findSome?_cons, ih]
    cases firstFault (f x) <;> rfl

theorem boolean_fault (path : Text) (v : Json) :
    Reading.fault ⟨path, .boolean, v⟩ = booleanFault path v := by cases v <;> rfl

theorem entry_fault (path : Text) (v : Json) :
    Reading.fault ⟨path, .entry, v⟩ = entryFault path v := by cases v <;> rfl

theorem entries_fault (path : Text) (ms : List (Text × Json)) :
    firstFault (entryReadings path (.object ms)) = entriesFault path ms := by
  simp only [entryReadings, members, firstFault_map, entry_fault]
  rfl

theorem table_fault (path : Text) (v : Json) :
    firstFault (⟨path, .table, v⟩ :: entryReadings path v) = tableFault path v := by
  cases v with
  | object ms => exact (firstFault_cons ..).trans (entries_fault path ms)
  | _ => rfl

theorem avoid_fault (v : Json) : firstFault (avoidReadings v) = Key.avoidOptionals.fault v := by
  cases v with
  | object ms =>
    have names : avoidEntries = Avoidable.all.map (·.name) := rfl
    have entries : firstFault (avoidReadings (.object ms)) =
        firstFault (avoidEntries.map fun name =>
          ⟨"avoidOptionals." ++ name, .boolean, (Json.object ms).get name⟩) := firstFault_cons ..
    rw [entries, firstFault_map, names, List.findSome?_map]
    simp only [boolean_fault]
    rfl
  | _ => rfl

theorem scalars_fault (v : Json) : firstFault (scalarsReadings v) = Key.scalars.fault v := by
  cases v with
  | object ms => exact (firstFault_cons ..).trans (entries_fault _ ms)
  | _ => rfl

theorem enumValues_fault (v : Json) :
    firstFault (enumValuesReadings v) = Key.enumValues.fault v := by
  cases v with
  | object ms =>
    have tables : firstFault (enumValuesReadings (.object ms)) =
        firstFault (ms.flatMap fun (enum, t) =>
          ⟨"enumValues." ++ enum, .table, t⟩ :: entryReadings ("enumValues." ++ enum) t) :=
      firstFault_cons ..
    rw [tables, firstFault_flatMap]
    simp only [table_fault]
    rfl
  | _ => rfl

/-- Options of one shape have the first fault of their values. -/
theorem options_fault {shape : Shape} {keys : List Key} (raw : Json)
    (each : ∀ k ∈ keys, ∀ v, Reading.fault ⟨k.name, shape, v⟩ = k.fault v) :
    firstFault ((keys.map (·.name)).map fun name => ⟨name, shape, raw.get name⟩) =
      keys.findSome? fun k => k.fault (raw.get k.name) := by
  induction keys with
  | nil => rfl
  | cons k keys ih =>
    obtain ⟨first, rest⟩ := List.forall_mem_cons.1 each
    rw [List.map_cons, List.map_cons, firstFault_cons, first, ih rest, List.findSome?_cons]
    cases k.fault (raw.get k.name) <;> rfl

theorem booleans_fault (raw : Json) :
    firstFault (booleanOptions.map fun name => ⟨name, .boolean, raw.get name⟩) =
      (Flag.all.map Key.flag).findSome? fun k => k.fault (raw.get k.name) := by
  have names : booleanOptions = (Flag.all.map Key.flag).map (·.name) := rfl
  rw [names]
  refine options_fault raw fun k mem v => ?_
  obtain ⟨f, -, rfl⟩ := List.mem_map.1 mem
  cases v <;> rfl

theorem strings_fault (raw : Json) :
    firstFault (stringOptions.map fun name => ⟨name, .string, raw.get name⟩) =
      (Alias.all.map Key.aliasBody ++ [Key.defaultScalarType]).findSome? fun k =>
        k.fault (raw.get k.name) := by
  have names : stringOptions =
      (Alias.all.map Key.aliasBody ++ [Key.defaultScalarType]).map (·.name) := rfl
  rw [names]
  refine options_fault raw fun k mem v => ?_
  rcases List.mem_append.1 mem with body | default
  · obtain ⟨a, -, rfl⟩ := List.mem_map.1 body
    cases v <;> rfl
  · obtain rfl := List.mem_singleton.1 default
    cases v <;> rfl

/-- **The fault of the options is the first among all readings.** -/
theorem fault_eq_firstFault (raw : Json) : fault raw = firstFault (readings raw) := by
  cases raw with
  | object ms =>
    have whole : Reading.fault ⟨"config", .object, .object ms⟩ = none := rfl
    have keys : Key.all = [.avoidOptionals] ++ Flag.all.map .flag ++
        (Alias.all.map .aliasBody ++ [.defaultScalarType]) ++ [.scalars] ++ [.enumValues] := rfl
    have single (k : Key) : [k].findSome? (fun k => k.fault ((Json.object ms).get k.name)) =
        k.fault ((Json.object ms).get k.name) := by
      rw [List.findSome?_cons]
      cases k.fault ((Json.object ms).get k.name) <;> rfl
    rw [readings, List.cons_append, List.cons_append, List.cons_append, List.cons_append,
      firstFault_cons, whole, Option.none_or, firstFault_append, firstFault_append,
      firstFault_append, firstFault_append, avoid_fault, booleans_fault, strings_fault,
      scalars_fault, enumValues_fault, fault, keys]
    simp only [List.findSome?_append, single]
    rfl
  | _ => rfl

theorem fault_eq_none_iff {raw : Json} : fault raw = none ↔ ∀ r ∈ readings raw, r.Fits := by
  rw [fault_eq_firstFault, firstFault, List.findSome?_eq_none_iff]
  simp [Reading.fault]

theorem exists_firstOffender {raw : Json} {e : ConfigurationError} (h : fault raw = some e) :
    ∃ r, FirstOffender (readings raw) r ∧ r.error = e := by
  rw [fault_eq_firstFault, firstFault, List.findSome?_eq_some_iff] at h
  obtain ⟨before, r, after, split, faulty, fit⟩ := h
  simp only [Reading.fault, ite_eq_left_iff, reduceCtorEq, imp_false, not_not] at fit
  have offends : ¬ r.Fits := by
    intro fits
    rw [Reading.fault, if_pos fits] at faulty
    cases faulty
  rw [Reading.fault, if_neg offends] at faulty
  exact ⟨r, ⟨before, after, split, fit, offends⟩, Option.some.inj faulty⟩

/-- A boolean, or not given. -/
def IsBoolean (v : Json) : Prop := v = .null ∨ ∃ b, v = .bool b

/-- A string, or not given. -/
def IsString (v : Json) : Prop := v = .null ∨ ∃ t, v = .string t

/-- An object of strings. -/
def IsTable (v : Json) : Prop :=
  ∃ entries, v = .object entries ∧ ∀ e ∈ entries, ∃ t, e.2 = .string t

/-- Each option that is given is of the right type. -/
structure Typed (raw : Json) : Prop where
  avoidOptionals : IsBoolean (raw.get "avoidOptionals") ∨
    (∃ entries, raw.get "avoidOptionals" = .object entries) ∧
      ∀ name ∈ avoidEntries, IsBoolean ((raw.get "avoidOptionals").get name)
  booleans : ∀ name ∈ booleanOptions, IsBoolean (raw.get name)
  strings : ∀ name ∈ stringOptions, IsString (raw.get name)
  scalars : raw.get "scalars" = .null ∨ IsTable (raw.get "scalars")
  enumValues : raw.get "enumValues" = .null ∨
    ∃ tables, raw.get "enumValues" = .object tables ∧ ∀ t ∈ tables, IsTable t.2

/-- The options are null, or an object in which each option is of the right type. -/
def WellTyped (raw : Json) : Prop := raw = .null ∨ (∃ ms, raw = .object ms) ∧ Typed raw

section Fits

variable {path : Text} {v : Json}

theorem fits_boolean : Reading.Fits ⟨path, .boolean, v⟩ ↔ IsBoolean v := by
  cases v <;> simp [Reading.Fits, Shape.takes, IsBoolean]

theorem fits_string : Reading.Fits ⟨path, .string, v⟩ ↔ IsString v := by
  cases v <;> simp [Reading.Fits, Shape.takes, IsString]

theorem fits_object : Reading.Fits ⟨path, .object, v⟩ ↔ v = .null ∨ ∃ ms, v = .object ms := by
  cases v <;> simp [Reading.Fits, Shape.takes]

theorem fits_entry : Reading.Fits ⟨path, .entry, v⟩ ↔ ∃ t, v = .string t := by
  cases v <;> simp [Reading.Fits, Shape.takes]

theorem entries_fit :
    (∀ r ∈ entryReadings path v, r.Fits) ↔ ∀ e ∈ members v, ∃ t, e.2 = .string t := by
  simp only [entryReadings, List.forall_mem_map, fits_entry]

theorem table_fits :
    (∀ r ∈ ⟨path, .table, v⟩ :: entryReadings path v, r.Fits) ↔ IsTable v := by
  rw [List.forall_mem_cons, entries_fit]
  cases v <;> simp [Reading.Fits, Shape.takes, IsTable, members]

theorem avoid_fit : (∀ r ∈ avoidReadings v, r.Fits) ↔
    IsBoolean v ∨
      (∃ entries, v = .object entries) ∧ ∀ name ∈ avoidEntries, IsBoolean (v.get name) := by
  simp only [avoidReadings, List.forall_mem_cons, List.forall_mem_map, fits_boolean]
  cases v <;> simp [Reading.Fits, Shape.takes, IsBoolean, Json.get]

theorem scalars_fit : (∀ r ∈ scalarsReadings v, r.Fits) ↔ v = .null ∨ IsTable v := by
  rw [scalarsReadings, List.forall_mem_cons, entries_fit, fits_object]
  cases v <;> simp [IsTable, members]

theorem enumValues_fit : (∀ r ∈ enumValuesReadings v, r.Fits) ↔
    v = .null ∨ ∃ tables, v = .object tables ∧ ∀ t ∈ tables, IsTable t.2 := by
  have tables : (∀ r ∈ (members v).flatMap fun (enum, t) =>
      ⟨"enumValues." ++ enum, .table, t⟩ :: entryReadings ("enumValues." ++ enum) t, r.Fits) ↔
      ∀ t ∈ members v, IsTable t.2 :=
    List.forall_mem_flatMap.trans (forall₂_congr fun t _ => table_fits)
  rw [enumValuesReadings, List.forall_mem_cons, tables, fits_object]
  cases v <;> simp [members]

end Fits

theorem allFit_iff {raw : Json} : (∀ r ∈ readings raw, r.Fits) ↔ WellTyped raw := by
  simp only [readings, List.forall_mem_append, List.forall_mem_cons, List.cons_append, avoid_fit,
    List.forall_mem_map, fits_boolean, fits_string, scalars_fit, enumValues_fit, fits_object]
  constructor
  · rintro ⟨null | object, ⟨⟨⟨avoid, booleans⟩, strings⟩, scalars⟩, enumValues⟩
    · exact .inl null
    · exact .inr ⟨object, avoid, booleans, strings, scalars, enumValues⟩
  · rintro (rfl | ⟨object, typed⟩)
    · exact ⟨.inl rfl, ⟨⟨⟨.inl (.inl rfl), fun _ _ => .inl rfl⟩, fun _ _ => .inl rfl⟩, .inl rfl⟩,
        .inl rfl⟩
    · exact ⟨.inr object, ⟨⟨⟨typed.avoidOptionals, typed.booleans⟩, typed.strings⟩, typed.scalars⟩,
        typed.enumValues⟩

end Options

theorem Settings.ofJson_congr {ms others : List (Text × Json)}
    (same : ∀ k : Options.Key, (Json.object ms).get k.name = (Json.object others).get k.name) :
    Settings.ofJson (.object ms) = Settings.ofJson (.object others) := by
  simp only [Settings.ofJson, Options.fault, Options.settings, same]

open Options

/-- **The first value of a wrong type is reported, and nothing else is.** Options come to settings
exactly if they are well typed. Otherwise the error has the path and the text of the first reading
that is not of its shape, and the reason that goes with the shape. In which order the options are
given makes no difference. -/
theorem Settings.ofJson_firstOffender (raw : Json) :
    ((∃ s, Settings.ofJson raw = .ok s) ↔ WellTyped raw) ∧
    (¬ WellTyped raw → ∃ r, FirstOffender (readings raw) r ∧
      Settings.ofJson raw = .error ⟨r.path, r.value.compact, r.shape.reason⟩) ∧
    ∀ ms others, raw = .object ms → ms.Perm others → (ms.map (·.1)).Nodup →
      Settings.ofJson (.object others) = Settings.ofJson raw := by
  refine ⟨?_, fun mistyped => ?_, ?_⟩
  · rw [← allFit_iff, ← fault_eq_none_iff, Settings.ofJson]
    cases fault raw <;> simp
  · rw [← allFit_iff, ← fault_eq_none_iff] at mistyped
    obtain ⟨e, faulty⟩ := Option.ne_none_iff_exists'.1 mistyped
    obtain ⟨r, first, rfl⟩ := exists_firstOffender faulty
    refine ⟨r, first, ?_⟩
    rw [Settings.ofJson, faulty]
    rfl
  · rintro ms others rfl perm nodup
    exact (Settings.ofJson_congr fun k => Json.get_eq_of_perm perm nodup k.name).symm

namespace Sample

/-- Options with two values of a wrong type and one member that is no option. -/
def mistyped : List (Text × Json) :=
  [("scalars", .object [("DateTime", .null)]), ("color", .number "1"), ("noExport", .string "yes")]

/-- Flags are read before scalars, whichever stands first. -/
theorem mistyped_reported :
    ¬ WellTyped (.object mistyped) ∧
      mistyped.Perm mistyped.reverse ∧ (mistyped.map (·.1)).Nodup ∧
      (∃ r, FirstOffender (readings (.object mistyped)) r ∧
        (⟨r.path, r.value.compact, r.shape.reason⟩ : ConfigurationError) =
          ⟨"noExport", "\"yes\"", .expectedBoolean⟩) ∧
      Settings.ofJson (.object mistyped.reverse) =
        .error ⟨"noExport", "\"yes\"", .expectedBoolean⟩ := by
  have error : Settings.ofJson (.object mistyped) =
      .error ⟨"noExport", "\"yes\"", .expectedBoolean⟩ := by decide +kernel
  have perm : mistyped.Perm mistyped.reverse := (List.reverse_perm mistyped).symm
  have nodup : (mistyped.map (·.1)).Nodup := by decide
  obtain ⟨accepts, refuses, reorders⟩ := Settings.ofJson_firstOffender (.object mistyped)
  have bad : ¬ WellTyped (.object mistyped) := by
    rw [← accepts, error]
    rintro ⟨s, made⟩
    cases made
  obtain ⟨r, first, reported⟩ := refuses bad
  refine ⟨bad, perm, nodup, ⟨r, first, Except.error.inj (reported.symm.trans error)⟩, ?_⟩
  rw [reorders mistyped mistyped.reverse rfl perm nodup, error]

end Sample

end SchemaTypes
