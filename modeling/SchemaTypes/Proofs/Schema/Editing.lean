import SchemaTypes.Proofs.Schema.Drafting
import SchemaTypes.Schema.Edit

/-!
# Drafts written in place

A call on a draft is made as a whole or, where it is refused, not at all. So it makes no difference
whether a draft is written in place or anew with each step, and a refused call can be passed over.
-/

namespace SchemaTypes.Draft

open Change

variable {ε : Type} {d next : Draft} {t u : TypeDefinition} {f : Field} {addition : Addition}
  {step : Step}

/-- What a step comes to in place: the draft that it gives, or the draft as it was. -/
def outcome (d : Draft) : Except ε Draft → Except ε Unit × Draft
  | .ok next => (.ok (), next)
  | .error e => (.error e, d)

theorem current_eq_ok_iff : d.current addition = .ok t ↔ d.types.getLast? = some t := by
  unfold current
  split <;> simp_all

theorem currentField_eq_ok (h : d.currentField addition = .ok f) :
    ∃ t, d.current addition = .ok t ∧ t.fields.getLast? = some f := by
  obtain ⟨t, found, h⟩ := bind_eq_ok.1 h
  refine ⟨t, found, ?_⟩
  split at h <;> simp_all

@[simp] theorem current_opening (d : Draft) (t : TypeDefinition) (addition : Addition) :
    (d.opening t).current addition = .ok t :=
  current_eq_ok_iff.2 (by simp [opening])

@[simp] theorem replacing_opening (d : Draft) (t u : TypeDefinition) :
    (d.opening t).replacing u = d.opening u := by
  simp [opening, replacing]

namespace Edit

@[simp] theorem on_current (addition : Addition) (d : Draft) :
    (current addition).on d = (d.current addition, d) := by
  simp [current, on_bind]

@[simp] theorem on_currentField (addition : Addition) (d : Draft) :
    (currentField addition).on d = (d.currentField addition, d) := by
  simp [currentField, on_bind]

@[simp] theorem on_opening (t : TypeDefinition) (d : Draft) :
    (opening t : Change Draft ε Unit).on d = (.ok (), d.opening t) := rfl

theorem on_changing (change : TypeDefinition → TypeDefinition)
    (found : d.current addition = .ok t) :
    (changing change : Change Draft ε Unit).on d = (.ok (), d.replacing (change t)) := by
  simp [changing, current_eq_ok_iff.1 found]

theorem changing_opening (change : TypeDefinition → TypeDefinition) (t : TypeDefinition)
    (d : Draft) : (changing change : Change Draft ε Unit).on (d.opening t) =
      (.ok (), d.opening (change t)) := by
  rw [on_changing change (current_opening d t .field), replacing_opening]

theorem on_changingField (change : Field → Field) (found : d.current addition = .ok t)
    (field : d.currentField addition = .ok f) :
    (changingField change : Change Draft ε Unit).on d =
      (.ok (), d.replacingField t (change f)) := by
  obtain ⟨u, found', last⟩ := currentField_eq_ok field
  obtain rfl : t = u := Except.ok.inj (found.symm.trans found')
  simp [changingField, on_changing _ found, replacingField, last]

theorem field_on (name type description : Text) (d : Draft) :
    (field name type description).on d = d.outcome (d.field name type description) := by
  unfold field Draft.field
  cases found : d.current .field with
  | error e => exact on_bind_error (by rw [on_current, found]) _
  | ok owner =>
    rw [on_bind_ok (by rw [on_current, found]), ok_bind]
    cases readType type with
    | error e => exact on_bind_error (on_ofExcept _ d) _
    | ok ref =>
      rw [on_bind_ok (on_ofExcept _ d), ok_bind]
      cases fieldPosition? owner.kind with
      | none => rfl
      | some position => exact on_changing _ found

theorem value_on (name literal description : Text) (d : Draft) :
    (value name literal description).on d = d.outcome (d.value name literal description) := by
  unfold value Draft.value
  cases found : d.current .value with
  | error e => exact on_bind_error (by rw [on_current, found]) _
  | ok owner =>
    rw [on_bind_ok (by rw [on_current, found]), ok_bind]
    by_cases enum : owner.kind = .enum
    · simp [outcome, enum, on_changing _ found]
    · simp [outcome, enum]

theorem currentField_eq_error {e : DraftError} (h : d.current addition = .error e) :
    d.currentField addition = .error e := by
  rw [Draft.currentField, h, error_bind]

theorem argument_on (name type : Text) (default? : Option Text) (d : Draft) :
    (argument name type default?).on d = d.outcome (d.argument name type default?) := by
  unfold argument Draft.argument
  cases found : d.current .argument with
  | error e => exact on_bind_error (by rw [on_currentField, currentField_eq_error found]) _
  | ok owner =>
    rw [ok_bind]
    cases field : d.currentField .argument with
    | error e => exact on_bind_error (by rw [on_currentField, field]) _
    | ok f =>
      rw [on_bind_ok (by rw [on_currentField, field]), ok_bind]
      by_cases output : f.position = .output
      · rw [if_neg (not_not_intro output), if_pos output]
        cases readType type with
        | error e => exact on_bind_error (on_ofExcept _ d) _
        | ok ref =>
          rw [on_bind_ok (on_ofExcept _ d), ok_bind]
          exact on_changingField _ found field
      · simp [outcome, output]

theorem defaultValue_on (literal : Text) (d : Draft) :
    (defaultValue literal).on d = d.outcome (d.defaultValue literal) := by
  unfold defaultValue Draft.defaultValue
  cases found : d.current .defaultValue with
  | error e => exact on_bind_error (by rw [on_currentField, currentField_eq_error found]) _
  | ok owner =>
    rw [ok_bind]
    cases field : d.currentField .defaultValue with
    | error e => exact on_bind_error (by rw [on_currentField, field]) _
    | ok f =>
      rw [on_bind_ok (by rw [on_currentField, field]), ok_bind]
      cases input : f.position.isInput with
      | true => simp [outcome, on_changingField _ found field]
      | false => simp [outcome]

theorem values_on (values : List Text) (enum : t.kind = .enum) (d : Draft) :
    (forM values fun v => value v v []).on (d.opening t) =
      (.ok (), d.opening { t with values := t.values ++ values.map fun v => ⟨v, v, []⟩ }) := by
  induction values generalizing t with
  | nil => simp
  | cons v values ih =>
    have first : (value v v []).on (d.opening t) =
        (.ok (), d.opening { t with values := t.values ++ [⟨v, v, []⟩] }) := by
      rw [value_on, Draft.value, current_opening, ok_bind, if_pos enum, replacing_opening]
      rfl
    rw [List.forM_cons, on_bind_ok first]
    refine (ih (t := { t with values := t.values ++ [⟨v, v, []⟩] }) enum).trans ?_
    rw [List.append_assoc]
    rfl

/-- **A step in place gives the draft that the step gives, or leaves the draft as it was.** -/
theorem perform_on (step : Step) (d : Draft) :
    (perform step).on d = d.outcome (d.apply step) := by
  cases step with
  | scalar name description | interface name description | input name description => rfl
  | enum name values description =>
    rw [perform, on_bind_ok (on_opening _ d)]
    exact values_on values rfl d
  | object name interfaces description =>
    rw [perform, on_bind_ok (on_opening _ d), changing_opening]
    rfl
  | union name members description =>
    rw [perform, on_bind_ok (on_opening _ d), changing_opening]
    rfl
  | field name type description => exact field_on name type description d
  | value name literal description => exact value_on name literal description d
  | argument name type default? => exact argument_on name type default? d
  | defaultValue literal => exact defaultValue_on literal d

theorem atomic_perform (step : Step) : (perform step).Atomic := by
  intro d e
  rw [after, perform_on]
  cases d.apply step with
  | error _ => exact fun _ => rfl
  | ok next => exact fun refused => nomatch refused

theorem after_perform (step : Step) (d : Draft) : (perform step).after d = d.attempt step := by
  rw [after, perform_on, attempt]
  cases d.apply step <;> rfl

end Edit

/-- The name of the type that a step opens, if it opens one. -/
def Step.opens? : Step → Option Text
  | .scalar name _ => some name
  | .enum name _ _ => some name
  | .object name _ _ => some name
  | .interface name _ => some name
  | .input name _ => some name
  | .union name _ _ => some name
  | _ => none

/-- The name of the type that a call opens, if it opens one. -/
def Call.opens? : Call → Option Text
  | .write step => step.opens?
  | .build => none

/-- A step opens a type behind the others, or changes the type opened last and keeps its name. -/
theorem apply_cases (made : d.apply step = .ok next) :
    (∃ t, step.opens? = some t.name ∧ next = d.opening t) ∨
    (step.opens? = none ∧ ∃ addition t u, d.current addition = .ok t ∧ next = d.replacing u ∧
      u.name = t.name) := by
  cases step with
  | field name type description =>
    obtain ⟨t, found, made⟩ := bind_eq_ok.1 made
    obtain ⟨ref, -, made⟩ := bind_eq_ok.1 made
    split at made
    · cases made
    · cases made
      exact .inr ⟨rfl, _, t, _, found, rfl, rfl⟩
  | value name literal description =>
    obtain ⟨t, found, made⟩ := bind_eq_ok.1 made
    split at made
    · cases made
      exact .inr ⟨rfl, _, t, _, found, rfl, rfl⟩
    · cases made
  | argument name type default? =>
    obtain ⟨t, found, made⟩ := bind_eq_ok.1 made
    obtain ⟨f, -, made⟩ := bind_eq_ok.1 made
    split at made
    · obtain ⟨ref, -, made⟩ := bind_eq_ok.1 made
      cases made
      exact .inr ⟨rfl, _, t, _, found, rfl, rfl⟩
    · cases made
  | defaultValue literal =>
    obtain ⟨t, found, made⟩ := bind_eq_ok.1 made
    obtain ⟨f, -, made⟩ := bind_eq_ok.1 made
    split at made
    · cases made
      exact .inr ⟨rfl, _, t, _, found, rfl, rfl⟩
    · cases made
  | _ =>
    cases made
    exact .inl ⟨_, rfl, rfl⟩

theorem names_replacing (found : d.current addition = .ok t) (same : u.name = t.name) :
    (d.replacing u).types.map (·.name) = d.types.map (·.name) := by
  have whole : d.types.dropLast ++ [t] = d.types :=
    List.dropLast_append_getLast? t (current_eq_ok_iff.1 found)
  rw [replacing, ← whole]
  simp [same]

theorem names_of_apply (made : d.apply step = .ok next) :
    next.types.map (·.name) = d.types.map (·.name) ++ step.opens?.toList := by
  rcases apply_cases made with ⟨t, opens, rfl⟩ | ⟨adds, addition, t, u, found, rfl, same⟩
  · simp [opens, opening]
  · simp [adds, names_replacing found same]

theorem opens?_of_error {e : DraftError} (refused : d.apply step = .error e) :
    step.opens? = none := by
  cases step with
  | field | value | argument | defaultValue => rfl
  | _ => cases refused

theorem names_attempt (d : Draft) (step : Step) :
    (d.attempt step).types.map (·.name) = d.types.map (·.name) ++ step.opens?.toList := by
  unfold attempt
  split
  · rename_i made
    exact names_of_apply made
  · rename_i refused
    simp [opens?_of_error refused]

theorem Edit.build_on (d : Draft) : Edit.build.on d = (d.build, d) := by
  have fold (types : List TypeDefinition) (start : Schema) :
      (types.foldlM (fun schema t => ofExcept (schema.add t)) start :
        Change Draft SchemaError Schema).on d = (types.foldlM Schema.add start, d) := by
    induction types generalizing start with
    | nil => rfl
    | cons t types ih =>
      rw [List.foldlM_cons, List.foldlM_cons]
      cases start.add t with
      | error e => exact on_bind_error (on_ofExcept _ d) _
      | ok next => exact (on_bind_ok (on_ofExcept _ d) _).trans (ih next)
  exact (on_bind_ok (on_get d) _).trans (fold d.types Schema.empty)

theorem of_build {schema : Schema} (built : d.build = .ok schema) :
    schema.types = d.types ∧ (∀ t ∈ d.types, t.name ≠ []) ∧ (d.types.map (·.name)).Nodup := by
  have types := Schema.types_of_ofList built
  exact ⟨types, types ▸ schema.named, types ▸ schema.distinct⟩

theorem after_build (d : Draft) : Edit.build.after d = d := by
  rw [after, Edit.build_on]

/-! ## Any calls -/

theorem formed_after (h : d.Formed) (call : Call) : (call.after d).Formed := by
  cases call with
  | write step =>
    rw [Call.after, Edit.after_perform]
    exact formed_attempt h step
  | build =>
    rw [Call.after, after_build]
    exact h

theorem names_after (d : Draft) (call : Call) :
    (call.after d).types.map (·.name) = d.types.map (·.name) ++ call.opens?.toList := by
  cases call with
  | write step =>
    rw [Call.after, Edit.after_perform]
    exact names_attempt d step
  | build =>
    rw [Call.after, after_build]
    exact (List.append_nil _).symm

theorem formed_written (calls : List Call) : (written calls).Formed := by
  have fold (d : Draft) (h : d.Formed) :
      (calls.foldl (fun d call => call.after d) d).Formed := by
    induction calls generalizing d with
    | nil => exact h
    | cons call calls ih => exact ih _ (formed_after h call)
  exact fold {} fun t mem => absurd mem List.not_mem_nil

/-- The types of a draft are those that the calls have opened, in that order. -/
theorem names_written (calls : List Call) :
    (written calls).types.map (·.name) = calls.filterMap Call.opens? := by
  have fold (d : Draft) : (calls.foldl (fun d call => call.after d) d).types.map (·.name) =
      d.types.map (·.name) ++ calls.filterMap Call.opens? := by
    induction calls generalizing d with
    | nil => exact (List.append_nil _).symm
    | cons call calls ih =>
      rw [List.foldl_cons, ih, names_after, List.append_assoc]
      cases opens : call.opens? <;> simp [opens]
  exact fold {}

theorem fieldPosition?_eq_some_iff {k : Kind} {p : Position} : fieldPosition? k = some p ↔
    (p = .output ∧ (k = .object ∨ k = .interface)) ∨ (p = .inputField ∧ k = .inputObject) := by
  cases k <;> cases p <;> decide

/-- **Whatever calls are made, and whichever of them are refused, a draft keeps its form.** A call
that is refused leaves the draft as it was. Fields stand only where a kind of types has them, and
all that hangs on a type goes with its kind. A draft can be built exactly if the names of the types
that have been opened are distinct and none of them is empty; it becomes a schema of its types in
that order, and stays as it is. -/
theorem written_keeps_form (calls : List Call) :
    (∀ step, (Edit.perform step).Atomic) ∧ Edit.build.Atomic ∧
    (∀ t ∈ (written calls).types, t.Formed ∧ ∀ f ∈ t.fields,
      (f.position = .output ∧ (t.kind = .object ∨ t.kind = .interface)) ∨
      (f.position = .inputField ∧ t.kind = .inputObject)) ∧
    (written calls).types.map (·.name) = calls.filterMap Call.opens? ∧
    Edit.build.after (written calls) = written calls ∧
    ((∃ schema, (Edit.build.on (written calls)).1 = .ok schema) ↔
      (∀ name ∈ calls.filterMap Call.opens?, name ≠ []) ∧
        (calls.filterMap Call.opens?).Nodup) ∧
    ∀ schema, (Edit.build.on (written calls)).1 = .ok schema →
      schema.types = (written calls).types := by
  have names := names_written calls
  refine ⟨Edit.atomic_perform, fun d _ _ => after_build d, fun t mem => ?_, names,
    after_build _, ?_, fun schema built => ?_⟩
  · have formed := formed_written calls t mem
    exact ⟨formed, fun f inside => fieldPosition?_eq_some_iff.1 (formed.fields f inside).position⟩
  · rw [Edit.build_on, ← names, List.forall_mem_map]
    constructor
    · rintro ⟨schema, built⟩
      exact (of_build built).2
    · rintro ⟨named, distinct⟩
      obtain ⟨schema, built, -⟩ := Schema.ofList_eq_ok named distinct
      exact ⟨schema, built⟩
  · rw [Edit.build_on] at built
    exact (of_build built).1

end SchemaTypes.Draft
