import SchemaTypes.Proofs.Alias.Classification
import SchemaTypes.Proofs.Alias.Run

/-!
# Errors and rejected aliases

An alias has an error of its own if its body is no type expression or closes a cycle. All others
that are rejected lean on such an alias, and have none.
-/

namespace SchemaTypes

open Relation

theorem Alias.option_injective : Function.Injective Alias.option := by
  intro a b same
  cases a <;> cases b <;> first | rfl | exact absurd same (by decide)

namespace Materialized

/-- There is an error in the option of an alias. -/
def Reports (m : Materialized) (a : Alias) : Prop := ∃ e ∈ m.errors, e.option = a.option

instance (m : Materialized) (a : Alias) : Decidable (m.Reports a) :=
  inferInstanceAs (Decidable (∃ e ∈ m.errors, e.option = a.option))

/-- What has become of an alias stays so, and no error is taken back. -/
structure Grows (m m' : Materialized) : Prop where
  declared : ∀ a ∈ m.declared, a ∈ m'.declared
  failed : ∀ a ∈ m.failed, a ∈ m'.failed
  errors : ∀ e ∈ m.errors, e ∈ m'.errors

variable {r : Registry} {a : Alias} {m m' : Materialized} {reason : Reason}

theorem Reports.grows (h : m.Reports a) (grows : m.Grows m') : m'.Reports a := by
  obtain ⟨e, mem, option⟩ := h
  exact ⟨e, grows.errors e mem, option⟩

theorem grows_declare : m.Grows (m.declare r a) where
  declared _ mem := mem_declared_declare.2 (.inr mem)
  failed _ := id
  errors _ := id

theorem grows_reject : m.Grows (m.reject a) where
  declared _ := id
  failed _ mem := mem_failed_reject.2 (.inr mem)
  errors _ := id

theorem grows_rejectFor : m.Grows (m.rejectFor r a reason) where
  declared _ := id
  failed _ mem := mem_failed_reject.2 (.inr mem)
  errors _ mem := List.mem_append_left _ mem

end Materialized

namespace Registry

variable (r : Registry)

/-- A reason to reject an alias for its own sake. -/
inductive Fault (a : Alias) : Reason → Prop where
  | invalid {e} : TypeExpr.check (r.body a) = .error e → Fault a (.invalidExpression e)
  | cycle {d} : ¬ r.Invalid a → r.Mentions a d → r.Reaches d a → Fault a (.refersBack a d)

/-- There is an error in the option of an alias, or else in that of the alias that is found by
following the first alias that is not declared, which is rejected. -/
inductive Traced (m : Materialized) : Alias → Prop where
  | own {a} : m.Reports a → Traced m a
  | dependency {a d before after} : ¬ r.Invalid a → r.dependencies a = before ++ d :: after →
      (∀ c ∈ before, c ∈ m.declared) → d ∈ m.failed → Traced m d → Traced m a

/-- The errors so far explain which aliases are rejected. -/
structure Explained (m : Materialized) : Prop where
  faults : ∀ e ∈ m.errors, ∃ a ∈ m.failed, ∃ reason, r.Fault a reason ∧ e = r.error a reason
  once : (m.errors.map (·.option)).Nodup
  traced : ∀ a ∈ m.failed, r.Traced m a

variable {r} {a b d : Alias} {m m' : Materialized} {reason : Reason}

theorem Traced.grows (h : r.Traced m a) (grows : m.Grows m') : r.Traced m' a := by
  induction h with
  | own reports => exact .own (reports.grows grows)
  | dependency valid split declared failed _ ih =>
    exact .dependency valid split (fun c mem => grows.declared c (declared c mem))
      (grows.failed _ failed) ih

namespace Explained

theorem empty : r.Explained {} where
  faults := by simp
  once := .nil
  traced := by simp

theorem declare (h : r.Explained m) : r.Explained (m.declare r a) where
  faults := h.faults
  once := h.once
  traced b failed := (h.traced b failed).grows Materialized.grows_declare

theorem reject (h : r.Explained m) (comes : r.ComesTo m a d) (failed : d ∈ m.failed) :
    r.Explained (m.reject a) where
  faults e mem := by
    obtain ⟨b, failed, fault⟩ := h.faults e mem
    exact ⟨b, Materialized.grows_reject.failed b failed, fault⟩
  once := h.once
  traced b mem := by
    rcases Materialized.mem_failed_reject.1 mem with rfl | old
    · obtain ⟨before, after, split, declared⟩ := comes.split
      exact .dependency comes.valid split declared (Materialized.grows_reject.failed d failed)
        ((h.traced d failed).grows Materialized.grows_reject)
    · exact (h.traced b old).grows Materialized.grows_reject

theorem rejectFor (h : r.Explained m) (fresh : ¬ m.settles a = true) (fault : r.Fault a reason) :
    r.Explained (m.rejectFor r a reason) where
  faults e mem := by
    rcases List.mem_append.1 mem with old | last
    · obtain ⟨b, failed, fault⟩ := h.faults e old
      exact ⟨b, Materialized.grows_rejectFor.failed b failed, fault⟩
    · exact ⟨a, Materialized.mem_failed_reject.2 (.inl rfl), reason, fault,
        List.mem_singleton.1 last⟩
  once := by
    show ((m.errors ++ [r.error a reason]).map (·.option)).Nodup
    rw [List.map_append, List.nodup_append]
    refine ⟨h.once, List.pairwise_singleton _ _, ?_⟩
    intro option old option' last same
    obtain ⟨e, mem, rfl⟩ := List.mem_map.1 old
    obtain ⟨b, failed, _, -, rfl⟩ := h.faults e mem
    rw [List.map_singleton, List.mem_singleton] at last
    obtain rfl : b = a := Alias.option_injective (same.trans last)
    exact fresh (Materialized.settles_iff.2 (.inr failed))
  traced b mem := by
    rcases Materialized.mem_failed_reject.1 mem with rfl | old
    · exact .own ⟨r.error b reason, List.mem_append_right _ (.head _), rfl⟩
    · exact (h.traced b old).grows Materialized.grows_rejectFor

theorem step (h : r.Explained m) (step : r.Step m m') : r.Explained m' := by
  cases step with
  | declare => exact h.declare
  | invalid fresh invalid => exact h.rejectFor fresh (.invalid invalid)
  | cycle comes back => exact h.rejectFor comes.fresh (.cycle comes.valid comes.mentions back)
  | dependent comes failed => exact h.reject comes failed

theorem run (h : r.Explained m) (run : ReflTransGen r.Step m m') : r.Explained m' := by
  induction run with
  | refl => exact h
  | tail _ step ih => exact ih.step step

theorem materialize (r : Registry) : r.Explained r.materialize := empty.run (materialize_run r)

theorem of_reports (h : r.Explained m) (reports : m.Reports a) :
    a ∈ m.failed ∧ ∃ reason, r.Fault a reason ∧ r.error a reason ∈ m.errors := by
  obtain ⟨e, mem, option⟩ := reports
  obtain ⟨b, failed, reason, fault, rfl⟩ := h.faults e mem
  obtain rfl := Alias.option_injective option
  exact ⟨failed, reason, fault, mem⟩

theorem error_of_invalid (h : r.Explained m) (failed : a ∈ m.failed) {e : TypeExpr.SyntaxError}
    (invalid : TypeExpr.check (r.body a) = .error e) :
    r.error a (.invalidExpression e) ∈ m.errors := by
  have unfit : r.Invalid a := invalid_iff.2 ⟨e, invalid⟩
  cases h.traced a failed with
  | dependency valid => exact absurd unfit valid
  | own reports =>
    obtain ⟨-, reason, fault, mem⟩ := h.of_reports reports
    cases fault with
    | cycle valid => exact absurd unfit valid
    | invalid invalid' =>
      obtain rfl := Except.error.inj (invalid.symm.trans invalid')
      exact mem

end Explained

/-- An alias has no error of its own, and `d` is the first rejected alias that its body mentions. -/
def Blames (r : Registry) (m : Materialized) (a d : Alias) : Prop :=
  ¬ m.Reports a ∧ (r.dependencies a).find? (· ∈ m.failed) = some d

theorem Blames.mentions (h : r.Blames m a d) : r.Mentions a d := List.mem_of_find?_eq_some h.2

/-- The errors of a registry explain which aliases are rejected, each once. -/
structure Explains (r : Registry) (m : Materialized) : Prop where
  errors_iff : m.errors = [] ↔ ∀ a, a ∉ m.failed
  once : (m.errors.map (·.option)).Nodup
  /-- Every error is that of a rejected alias, and cites its whole body. It says what is wrong with
  the body, or it names the alias itself and one it mentions that leads back to it. -/
  errors : ∀ e ∈ m.errors, ∃ a ∈ m.failed, e.option = a.option ∧ e.value = r.body a ∧
    ((∃ message, TypeExpr.problem? (r.body a) = some message ∧
        e.reason.text = "not a valid type expression: " ++ message) ∨
      ∃ d, e.reason.text = "alias '" ++ a.name ++ "' refers back to '" ++ d.name ++ "'" ∧
        r.Mentions a d ∧ r.Reaches d a)
  /-- A rejected alias without an error blames one that it mentions. -/
  blames : ∀ a ∈ m.failed, ¬ m.Reports a → ∃ d ∈ m.failed, r.Mentions a d ∧ r.Blames m a d
  /-- To follow the blame leads to an error. -/
  traced : ∀ a ∈ m.failed, ∃ b ∈ m.failed, m.Reports b ∧ ReflTransGen (r.Blames m) a b
  invalid : ∀ a ∈ r.referenced, ∀ message, TypeExpr.problem? (r.body a) = some message →
    ∃ e ∈ m.errors, e.option = a.option ∧
      e.reason.text = "not a valid type expression: " ++ message

/-- What is declared is not rejected, so the first alias that is not declared is the first rejected
one. -/
theorem find?_failed {before after : List Alias}
    (split : r.dependencies a = before ++ d :: after)
    (declared : ∀ c ∈ before, c ∈ r.materialize.declared) (failed : d ∈ r.materialize.failed) :
    (r.dependencies a).find? (· ∈ r.materialize.failed) = some d := by
  have none : before.find? (· ∈ r.materialize.failed) = none := by
    refine List.find?_eq_none.2 fun c mem => ?_
    have good := (mem_declared_iff.1 (declared c mem)).2
    simp [mem_failed_iff, good]
  rw [split, List.find?_append, none, Option.none_or,
    List.find?_cons_of_pos (by simpa using failed)]

theorem Traced.blames (h : r.Traced r.materialize a) (failed : a ∈ r.materialize.failed) :
    ∃ b ∈ r.materialize.failed, r.materialize.Reports b ∧
      ReflTransGen (r.Blames r.materialize) a b := by
  induction h with
  | @own a reports => exact ⟨a, failed, reports, .refl⟩
  | @dependency a d before after _ split declared failed' _ ih =>
    by_cases reports : r.materialize.Reports a
    · exact ⟨a, failed, reports, .refl⟩
    · obtain ⟨b, mem, reports', way⟩ := ih failed'
      exact ⟨b, mem, reports', .head ⟨reports, find?_failed split declared failed'⟩ way⟩

/-- **Failures are explained once.** There are errors exactly if aliases are rejected, and at most
one in each option. Each is about the body of a rejected alias that is invalid or on a cycle. From
every other rejected alias, the first rejected one that it mentions leads to such an alias in the
end; and whatever the output refers to and is invalid has an error. -/
theorem materialize_explains (r : Registry) : r.Explains r.materialize := by
  have explained := Explained.materialize r
  have consistent := materialize_consistent (r := r)
  refine ⟨⟨?_, ?_⟩, explained.once, ?_, ?_,
    fun a failed => (explained.traced a failed).blames failed, ?_⟩
  · exact fun quiet a failed => consistent.reported a failed quiet
  · refine fun none => Classical.not_not.1 fun wrong => ?_
    obtain ⟨a, failed⟩ := consistent.blamed wrong
    exact none a failed
  · intro e mem
    obtain ⟨a, failed, reason, fault, rfl⟩ := explained.faults e mem
    refine ⟨a, failed, rfl, rfl, ?_⟩
    cases fault with
    | @invalid e invalid =>
      exact .inl ⟨e.message, TypeExpr.problem?_eq_some_iff.2 ⟨e, invalid, rfl⟩, rfl⟩
    | @cycle d _ edge back => exact .inr ⟨d, rfl, edge, back⟩
  · intro a failed silent
    cases explained.traced a failed with
    | own reports => exact absurd reports silent
    | @dependency _ d _ _ _ split declared failed' =>
      exact ⟨d, failed', mentions_of_split split, silent, find?_failed split declared failed'⟩
  · intro a referred message problem
    obtain ⟨e, invalid, rfl⟩ := TypeExpr.problem?_eq_some_iff.1 problem
    have bad : r.Bad a := bad_of_invalid (invalid_iff.2 ⟨e, invalid⟩)
    have failed : a ∈ r.materialize.failed := mem_failed_iff.2 ⟨.root referred, bad⟩
    exact ⟨_, explained.error_of_invalid failed invalid, rfl, rfl⟩

/-- An alias is referred to, or mentioned by one that is required. -/
def Required (r : Registry) (a : Alias) : Prop := ∃ root ∈ r.referenced, r.Reaches root a

theorem reports_invalid_iff (invalid : r.Invalid a) :
    r.materialize.Reports a ↔ r.Visited a := by
  have explained := Explained.materialize r
  constructor
  · intro reports
    exact (mem_failed_iff.1 (explained.of_reports reports).1).1
  · intro visited
    have failed : a ∈ r.materialize.failed := mem_failed_iff.2 ⟨visited, bad_of_invalid invalid⟩
    obtain ⟨e, invalid⟩ := invalid_iff.1 invalid
    exact ⟨_, explained.error_of_invalid failed invalid, rfl⟩

/-- An alias that is referred to and from which an invalid body can be reached leads to one that has
an error. -/
theorem exists_reports {root : Alias} (referred : root ∈ r.referenced) (way : r.Reaches root a)
    (invalid : r.Invalid a) : ∃ b, r.Reaches root b ∧ r.materialize.Reports b := by
  have bad : r.Bad root := ⟨a, way, .inl invalid⟩
  have failed : root ∈ r.materialize.failed := mem_failed_iff.2 ⟨.root referred, bad⟩
  obtain ⟨b, -, reports, blame⟩ := ((Explained.materialize r).traced root failed).blames failed
  exact ⟨b, ReflTransGen.mono (fun _ _ => Blames.mentions) root b blame, reports⟩

/-- **The invalid bodies of visited aliases are reported.** Of the aliases with invalid bodies,
these and no others have errors. A required one may be passed over behind a rejected alias, but not
without any error: whatever is referred to and leads to it leads to an alias with an error. So it
has an error itself if it is the only one and no required alias is on a cycle. -/
theorem materialize_reports (r : Registry) :
    (∀ a, r.Invalid a → (r.materialize.Reports a ↔ r.Visited a)) ∧
    (∀ root ∈ r.referenced, ∀ a, r.Reaches root a → r.Invalid a →
      ∃ b, r.Reaches root b ∧ r.materialize.Reports b) ∧
    ∀ a, r.Required a → r.Invalid a → (∀ b, r.Required b → r.Invalid b → b = a) →
      (∀ b, r.Required b → ¬ r.OnCycle b) → r.materialize.Reports a := by
  refine ⟨fun a => reports_invalid_iff, fun root referred a => exists_reports referred, ?_⟩
  rintro a ⟨root, referred, way⟩ invalid only noCycle
  obtain ⟨b, way', reports⟩ := exists_reports referred way invalid
  have required : r.Required b := ⟨root, referred, way'⟩
  obtain ⟨-, reason, fault, -⟩ := (Explained.materialize r).of_reports reports
  cases fault with
  | @invalid e unfit => exact only b required (invalid_iff.2 ⟨e, unfit⟩) ▸ reports
  | cycle _ edge back => exact absurd (.head' edge back) (noCycle b required)

end Registry

namespace Masked

/-- A registry that refers to an alias whose body mentions two others, both with invalid bodies. -/
def registry : Registry where
  bodies := { PerAlias.ofFun fun _ => "|" with maybe := "InputMaybe<T> | FieldWrapper<T>" }
  noExport := false
  referenced := AliasSet.empty.insert .maybe

/-- The second of them is passed over. -/
theorem passes_over_invalid : registry.Required .fieldWrapper ∧ registry.Invalid .fieldWrapper ∧
    ¬ registry.materialize.Reports .fieldWrapper := by
  have edge : registry.Mentions .maybe .fieldWrapper := by
    unfold Registry.Mentions
    decide +kernel
  exact ⟨⟨.maybe, by decide, .single edge⟩, (by decide +kernel : TypeExpr.problem? _ ≠ none),
    by decide +kernel⟩

end Masked

end SchemaTypes
