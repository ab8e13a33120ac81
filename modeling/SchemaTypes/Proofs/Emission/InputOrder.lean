import SchemaTypes.Emission
import SchemaTypes.Proofs.Emission.Sequence
import SchemaTypes.Proofs.Schema.Order
import SchemaTypes.Sample

namespace SchemaTypes

section

variable {schema schema' : Schema} (finds : ∀ name, schema.find? name = schema'.find? name)
  (lists : ∀ k, schema.ofKind k = schema'.ofKind k)

include finds lists

theorem leafText_congr (s : Settings) (name referencedFrom : Text) :
    leafText schema s name referencedFrom = leafText schema' s name referencedFrom := by
  unfold leafText interfaceText Schema.implementationsOf
  rw [finds, lists]

theorem declarationsOf_congr (s : Settings) :
    declarationsOf schema s = declarationsOf schema' s := by
  funext t
  refine declarationsOf_rel (R := .equal _) (leafText_congr finds lists s) ?_
  show unionDeclaration schema s t = unionDeclaration schema' s t
  unfold unionDeclaration
  simp only [finds]

theorem scalarTables_congr (s : Settings) : scalarTables schema s = scalarTables schema' s := by
  unfold scalarTables scalarsDeclaration scalarEntries
  simp only [finds, lists]

theorem typeDeclarations_congr (s : Settings) :
    typeDeclarations schema s = typeDeclarations schema' s := by
  have types : typesInOrder schema s = typesInOrder schema' s :=
    congrArg (List.flatMap · _) (funext lists)
  rw [typeDeclarations_eq, typeDeclarations_eq, declarationsOf_congr finds lists,
    scalarTables_congr finds lists, types]

theorem emit_congr (s : Settings) : emit schema s = emit schema' s := by
  unfold emit
  rw [typeDeclarations_congr finds lists]

end

/-- **The order of the types makes no difference.** Types with distinct names, none of them empty,
make a schema in every order; all these schemas have the same emission under the same settings, or
end at the same reference. -/
theorem emit_eq_of_perm {types types' : List TypeDefinition} (named : ∀ t ∈ types, t.name ≠ [])
    (distinct : (types.map (·.name)).Nodup) (perm : types.Perm types') (s : Settings) :
    ∃ schema schema', Schema.ofList types = .ok schema ∧ Schema.ofList types' = .ok schema' ∧
      emit schema s = emit schema' s := by
  have named' : ∀ t ∈ types', t.name ≠ [] := fun t mem => named t (perm.mem_iff.2 mem)
  have distinct' : (types'.map (·.name)).Nodup := (perm.map _).nodup_iff.1 distinct
  obtain ⟨schema, made, rfl⟩ := Schema.ofList_eq_ok named distinct
  obtain ⟨schema', made', rfl⟩ := Schema.ofList_eq_ok named' distinct'
  refine ⟨schema, schema', made, made', ?_⟩
  exact emit_congr (Schema.find?_eq_of_perm perm) (Schema.ofKind_eq_of_perm perm) s

/-- The types of the sample, and the same types back to front. -/
theorem Sample.emit_reverse : ∃ forward backward,
    Schema.ofList schema.types = .ok forward ∧ Schema.ofList schema.types.reverse = .ok backward ∧
      emit forward {} = emit backward {} :=
  emit_eq_of_perm schema.named schema.distinct (List.reverse_perm _).symm {}

end SchemaTypes
