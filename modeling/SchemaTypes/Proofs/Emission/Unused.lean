import SchemaTypes.Proofs.Alias.Agreement
import SchemaTypes.Proofs.Emission.Kept

namespace SchemaTypes

open Relation

/-- A declaration of a schema uses an alias or one from which it can be reached. -/
def Needs (schema : Schema) (s : Settings) (a : Alias) : Prop :=
  ∃ ds, typeDeclarations schema s = .ok ds ∧
    ∃ d ∈ ds, ∃ b ∈ d.wrappers, s.registry.Reaches b a

variable {schema : Schema} {s : Settings} {bodies : PerAlias Text}

theorem emit_congr_bodies (same : ∀ a, Needs schema s a → bodies.get a = s.bodies.get a) :
    emit schema { s with bodies } = emit schema s := by
  unfold emit
  rw [typeDeclarations_of_bodies schema s bodies]
  cases made : typeDeclarations schema s with
  | error => rfl
  | ok ds =>
    let used : AliasSet := .unions (ds.map (·.wrappers))
    have agree : (s.registry.referring used).Agree
        ({ s with bodies }.registry.referring used) (Needs schema s) := by
      refine ⟨rfl, same, ?_⟩
      rintro a ⟨ds, made, d, mem, b, inside, way⟩ c edge
      exact ⟨ds, made, d, mem, b, inside, way.tail edge⟩
    have referenced : ∀ a ∈ (s.registry.referring used).referenced, Needs schema s a := by
      intro a mem
      obtain ⟨d, mem, inside⟩ : ∃ d ∈ ds, a ∈ d.wrappers := by
        simpa [Settings.registry, used] using mem
      exact ⟨ds, made, d, mem, a, inside, .refl⟩
    have aliases : materialized { s with bodies } ds = materialized s ds :=
      agree.materialize rfl referenced
    simp only [Except.map, aliases]

/-- **Bodies count only where they are needed.** If no declaration of a schema leans on an alias,
then under settings that differ in the body of that alias alone, whatever the two bodies are, the
same comes out: the same emission, or the same reference that leads nowhere. -/
theorem emit_of_unused {k : Alias} (differ : ∀ a, a ≠ k → bodies.get a = s.bodies.get a)
    (unused : ¬ Needs schema s k) : emit schema { s with bodies } = emit schema s := by
  refine emit_congr_bodies fun a needed => differ a ?_
  rintro rfl
  exact unused needed

namespace Sample

/-- Bodies one of which is no type expression. -/
def unusedBodies : PerAlias Text :=
  { PerAlias.ofFun Alias.defaultBody with entireFieldWrapper := "Maybe<T" }

theorem not_needs : ¬ Needs Sample.schema {} .entireFieldWrapper := by
  have unmentioned (b : Alias) :
      .entireFieldWrapper ∉ (Settings.registry {}).dependencies b := by
    cases b <;> decide +kernel
  have unwrapped : ∀ ds ∈ (typeDeclarations Sample.schema {}).toOption, ∀ d ∈ ds,
      .entireFieldWrapper ∉ d.wrappers := by decide +kernel
  rintro ⟨ds, made, d, mem, b, inside, way⟩
  rcases ReflTransGen.cases_tail way with rfl | ⟨c, -, edge⟩
  · exact unwrapped ds (by rw [made]; rfl) d mem inside
  · exact unmentioned c edge

/-- In the sample nothing needs that body, and though it is no type expression, the emission is that
of the default settings. -/
theorem emit_unusedBodies : TypeExpr.problem? (unusedBodies.get .entireFieldWrapper) ≠ none ∧
    emit Sample.schema { bodies := unusedBodies } = emit Sample.schema {} := by
  refine ⟨by decide +kernel, ?_⟩
  refine emit_of_unused (k := .entireFieldWrapper) (fun a other => ?_) not_needs
  cases a <;> first | rfl | exact absurd rfl other

end Sample

end SchemaTypes
