import SchemaTypes.Proofs.Alias.Settling

namespace SchemaTypes

theorem Alias.name_injective : Function.Injective Alias.name := by
  intro a b same
  cases a <;> cases b <;> first | rfl | exact absurd same (by decide)

def Materialized.Declares (m : Materialized) (a : Alias) : Prop :=
  ∃ d ∈ m.declarations, d.name = a.name

namespace Registry

variable {r : Registry} {a : Alias}

/-- The registry after putting type texts inside aliases. -/
def wrapAll (r : Registry) (calls : List (Alias × Text)) : Registry :=
  calls.foldl (fun r (a, inner) => (r.wrap a inner).2) r

theorem declares_iff : r.materialize.Declares a ↔ a ∈ r.materialize.declared := by
  obtain ⟨as, -, declarations, members⟩ := materialize_consistent (r := r).order
  rw [members]
  unfold Materialized.Declares
  rw [declarations]
  constructor
  · rintro ⟨d, mem, same⟩
    obtain ⟨b, emitted, rfl⟩ := List.mem_map.1 mem
    exact Alias.name_injective same ▸ emitted
  · exact fun mem => ⟨r.declaration a, List.mem_map_of_mem mem, rfl⟩

section

variable {r' : Registry} (same : r'.bodies = r.bodies)

include same

theorem mentions_congr : r'.Mentions = r.Mentions := by
  funext a b
  simp only [Mentions, dependencies, body, same]

theorem bad_congr : r'.Bad a ↔ r.Bad a := by
  simp only [Bad, Reaches, OnCycle, Invalid, body, mentions_congr same, same]

end

theorem wrapAll_cons (r : Registry) (call : Alias × Text) (calls : List (Alias × Text)) :
    r.wrapAll (call :: calls) = (r.wrap call.1 call.2).2.wrapAll calls := rfl

theorem bodies_wrapAll (r : Registry) (calls : List (Alias × Text)) :
    (r.wrapAll calls).bodies = r.bodies := by
  induction calls generalizing r with
  | nil => rfl
  | cons call calls ih => rw [wrapAll_cons, ih]; rfl

theorem mem_referenced_wrapAll (r : Registry) (calls : List (Alias × Text)) :
    a ∈ (r.wrapAll calls).referenced ↔ a ∈ r.referenced ∨ a ∈ calls.map (·.1) := by
  induction calls generalizing r with
  | nil => simp [wrapAll]
  | cons call calls ih =>
    rw [wrapAll_cons, ih]
    simp [wrap, or_assoc]

theorem declares_iff_of_referenced (referred : a ∈ r.referenced) :
    r.materialize.Declares a ↔ ¬ r.Bad a := by
  rw [declares_iff, mem_declared_iff]
  exact and_iff_right (.root referred)

theorem errors_eq_nil_iff : r.materialize.errors = [] ↔ ∀ a ∈ r.referenced, ¬ r.Bad a := by
  have consistent := materialize_consistent (r := r)
  constructor
  · intro quiet a referred bad
    exact consistent.reported a (mem_failed_iff.2 ⟨.root referred, bad⟩) quiet
  · refine fun good => Classical.not_not.1 fun wrong => ?_
    -- Every error is the fault of a failed alias, and that was reached from one referred to.
    obtain ⟨b, failed⟩ := consistent.blamed wrong
    obtain ⟨a, referred, way⟩ := (mem_failed_iff.1 failed).1.reached
    exact good a referred (bad_of_reaches way (consistent.bad b failed))

/-- **Materializing classifies the aliases by their graph.** Every alias that is referred to, and
every other one that is visited, is declared or rejected but not both, and it is rejected exactly if
it is bad; all others are neither. So whether an alias that is wrapped around some text is declared
depends neither on the other calls nor on their order. -/
theorem materialize_classifies (r : Registry) :
    (∀ a ∈ r.referenced, r.Visited a) ∧
    (∀ a, r.Visited a →
      (r.materialize.Declares a ↔ a ∉ r.materialize.failed) ∧
      (a ∈ r.materialize.failed ↔ r.Bad a)) ∧
    (∀ a, ¬ r.Visited a → ¬ r.materialize.Declares a ∧ a ∉ r.materialize.failed) ∧
    ∀ calls calls' : List (Alias × Text), ∀ a, a ∈ calls.map (·.1) → a ∈ calls'.map (·.1) →
      ((r.wrapAll calls).materialize.Declares a ↔ (r.wrapAll calls').materialize.Declares a) := by
  refine ⟨fun a => .root, fun a visited => ?_, fun a unvisited => ?_, ?_⟩
  · rw [declares_iff, mem_declared_iff, mem_failed_iff]
    simp [visited]
  · rw [declares_iff, mem_declared_iff, mem_failed_iff]
    simp [unvisited]
  · intro calls calls' a mem mem'
    rw [declares_iff_of_referenced ((mem_referenced_wrapAll r calls).2 (.inr mem)),
      declares_iff_of_referenced ((mem_referenced_wrapAll r calls').2 (.inr mem')),
      bad_congr (bodies_wrapAll r calls), bad_congr (bodies_wrapAll r calls')]

end Registry

end SchemaTypes
