import SchemaTypes.Proofs.Emission.Kept

/-!
# Runs with a filter

A filter lets whole kinds of types through. What a run with one puts out is a part of what the run
without it puts out, since neither enums nor the table of scalars refer to anything.
-/

namespace SchemaTypes

/-- The kinds of declarations that a filter leaves. -/
def TypeFilter.keeps : TypeFilter → DeclarationKind → Bool
  | .all, _ => true
  | .enumsAndScalarsOnly, k => k == .enum || k == .scalars
  | .enumsOnly, k => k == .enum

variable {schema : Schema} {s : Settings} {t : TypeDefinition} {ds : List Declaration}
  {f : TypeFilter}

theorem keeps_of_entries {x : Entry} (mem : x ∈ t.entries s) :
    f.keeps x.kind = f.permits t.kind := by
  have arguments : ∀ x ∈ t.argumentsEntries s, x.kind = .arguments := by
    intro x mem
    obtain ⟨f, -, rfl⟩ := List.mem_map.1 mem
    rfl
  unfold TypeDefinition.entries at mem
  cases kind : t.kind with
  | scalar =>
    rw [kind] at mem
    cases mem
  | enum | inputObject | union =>
    rw [kind] at mem
    rw [List.mem_singleton.1 mem]
    cases f <;> rfl
  | object | interface =>
    rw [kind] at mem
    rcases List.mem_cons.1 mem with rfl | later
    · cases f <;> rfl
    · rw [arguments x later]
      cases f <;> rfl

theorem keeps_of_kindDeclarations {k : Kind} (h : kindDeclarations schema s k = .ok ds) :
    ∀ d ∈ ds, f.keeps d.kind = f.permits k := by
  intro d mem
  by_cases scalar : k = .scalar
  · subst scalar
    cases h
    rw [List.mem_singleton.1 mem]
    cases f <;> rfl
  · rw [kindDeclarations_eq scalar] at h
    obtain ⟨lists, made, rfl⟩ := map_eq_ok.1 h
    obtain ⟨own, mem', inside⟩ := List.mem_flatten.1 mem
    obtain ⟨t, listed, declares⟩ := exists_of_mem_mapM made mem'
    have entry : d.entry ∈ t.entries s :=
      entries_of_declarationsOf declares ▸ List.mem_map_of_mem inside
    rw [← (Schema.mem_ofKind.1 listed).2]
    exact keeps_of_entries entry

theorem kindDeclarations_of_filter (schema : Schema) (s : Settings) (f : TypeFilter) :
    kindDeclarations schema { s with typeFilter := f } = kindDeclarations schema s := by
  funext k
  by_cases scalar : k = .scalar
  · subst scalar
    rfl
  · rw [kindDeclarations_eq scalar, kindDeclarations_eq scalar,
      declarationsOf_with schema s s.bodies f]

theorem mapM_kinds_filter {ks : List Kind} {lists : List (List Declaration)}
    (h : ks.mapM (kindDeclarations schema s) = .ok lists) :
    ∃ kept, (ks.filter f.permits).mapM (kindDeclarations schema s) = .ok kept ∧
      kept.flatten = lists.flatten.filter (f.keeps ·.kind) := by
  induction ks generalizing lists with
  | nil =>
    cases h
    exact ⟨[], rfl, rfl⟩
  | cons k ks ih =>
    obtain ⟨ds, rest, declares, more, rfl⟩ := mapM_cons_eq_ok.1 h
    obtain ⟨kept, made, eq⟩ := ih more
    have same := keeps_of_kindDeclarations (f := f) declares
    rw [List.filter_cons, List.flatten_cons, List.filter_append, ← eq]
    cases permitted : f.permits k with
    | true =>
      have all : ds.filter (f.keeps ·.kind) = ds := by
        rw [List.filter_eq_self]
        exact fun d mem => (same d mem).trans permitted
      exact ⟨ds :: kept, mapM_cons_eq_ok.2 ⟨ds, kept, declares, made, rfl⟩, by rw [all]; rfl⟩
    | false =>
      have none : ds.filter (f.keeps ·.kind) = [] := by
        rw [List.filter_eq_nil_iff]
        intro d mem
        rw [same d mem, permitted]
        exact Bool.false_ne_true
      exact ⟨kept, made, by rw [none]; rfl⟩

/-- With a filter, the declarations of a schema are those of the full run that it leaves. -/
theorem typeDeclarations_of_filter
    (h : typeDeclarations schema { s with typeFilter := .all } = .ok ds) (f : TypeFilter) :
    typeDeclarations schema { s with typeFilter := f } = .ok (ds.filter (f.keeps ·.kind)) := by
  unfold typeDeclarations at h ⊢
  rw [kindDeclarations_of_filter] at h ⊢
  obtain ⟨lists, made, rfl⟩ := map_eq_ok.1 h
  obtain ⟨kept, made', eq⟩ := mapM_kinds_filter (f := f) made
  have every : Kind.declarationOrder.filter TypeFilter.all.permits = Kind.declarationOrder := rfl
  simp only [every] at made'
  rw [made', ← eq]
  rfl

theorem typeDeclarations_narrow (schema : Schema) (s : Settings) (narrow : f ≠ .all) :
    ∃ ds, typeDeclarations schema { s with typeFilter := f } = .ok ds ∧
      ∀ d ∈ ds, d.wrappers = .empty := by
  cases f with
  | all => exact absurd rfl narrow
  | enumsAndScalarsOnly =>
    refine ⟨_, rfl, ?_⟩
    simp [scalarsDeclaration, enumDeclaration]
  | enumsOnly =>
    refine ⟨_, rfl, ?_⟩
    simp [enumDeclaration]

theorem materialized_of_wrappers_empty (h : ∀ d ∈ ds, d.wrappers = .empty) :
    materialized s ds = {} := by
  unfold materialized
  rw [← Registry.referring_of_wrappers_empty h]
  rfl

theorem avoids_of_wrappers_empty {d : Declaration} (h : d.wrappers = .empty) (aliases : AliasSet) :
    d.avoids aliases = true := by
  rw [avoids_iff, h]
  exact fun a inside => absurd inside (AliasSet.not_mem_empty a)

theorem filter_others_keeps (narrow : f ≠ .all) (e : Emission) :
    e.others.filter (f.keeps ·.kind) = e.declarations.filter (f.keeps ·.kind) := by
  have noAlias : f.keeps .wrapperAlias = false := by
    cases f with
    | all => exact absurd rfl narrow
    | enumsAndScalarsOnly | enumsOnly => rfl
  rw [Emission.others, List.filter_filter]
  refine List.filter_congr fun d _ => ?_
  by_cases wrapper : d.kind = .wrapperAlias
  · rw [wrapper, noAlias]
    rfl
  · simp [wrapper]

/-- **A filtered run is a part of the full run.** With a filter that lets enums through, or enums
and scalars, there is always an emission. It has no errors and no aliases, and nothing is skipped;
and if the full run has an emission, with errors or without, then its declarations are those of the
full run that are enums, or enums and the table of scalars, as they are there and in the same
order. -/
theorem emit_of_filter (schema : Schema) (s : Settings) (narrow : f ≠ .all) :
    ∃ e, emit schema { s with typeFilter := f } = .ok e ∧ e.errors = [] ∧ e.skipped = [] ∧
      (∀ d ∈ e.declarations, d.kind ≠ .wrapperAlias) ∧
      ∀ full, emit schema { s with typeFilter := .all } = .ok full →
        e.declarations = full.declarations.filter (f.keeps ·.kind) := by
  obtain ⟨ds, made, empty⟩ := typeDeclarations_narrow schema s narrow
  have kept (aliases : AliasSet) : ds.filter (·.avoids aliases) = ds := by
    rw [List.filter_eq_self]
    exact fun d mem => avoids_of_wrappers_empty (empty d mem) aliases
  refine ⟨⟨ds, [], []⟩, ?_, rfl, rfl, kind_ne_wrapperAlias made, ?_⟩
  · have quiet := materialized_of_wrappers_empty (s := { s with typeFilter := f }) empty
    have none : ds.filter (fun d => !d.avoids (Materialized.failed {})) = [] := by
      rw [List.filter_eq_nil_iff]
      intro d mem
      simp [avoids_of_wrappers_empty (empty d mem)]
    unfold emit
    rw [made]
    simp only [Except.map, quiet, List.partition_eq_filter_filter, kept, Function.comp_def, none]
    rfl
  · intro full emitted
    obtain ⟨all, made', -⟩ := emit_eq_ok emitted
    have part : ds = all.filter (f.keeps ·.kind) :=
      Except.ok.inj (made.symm.trans (typeDeclarations_of_filter made' f))
    calc ds = ds.filter (·.avoids (rejectedAliases schema { s with typeFilter := .all })) :=
          (kept _).symm
      _ = full.others.filter (f.keeps ·.kind) := by
          rw [part, others_eq emitted made', List.filter_filter, List.filter_filter]
          simp only [Bool.and_comm]
      _ = full.declarations.filter (f.keeps ·.kind) := filter_others_keeps narrow full

namespace Sample

/-- The sample has only its enum in a run for enums, although the full run is not without errors. -/
theorem emit_enums : badEmission.isOk = false ∧
    ∃ e, emit Sample.schema { badSettings with typeFilter := .enumsOnly } = .ok e ∧
      e.declarations.map (·.name) = ["Role"] ∧
      e.declarations = badEmission.declarations.filter (TypeFilter.enumsOnly.keeps ·.kind) := by
  obtain ⟨e, emitted, -, -, -, part⟩ :=
    emit_of_filter (f := .enumsOnly) Sample.schema badSettings (by decide)
  have same := part badEmission emit_bad_eq
  exact ⟨by decide +kernel, e, emitted, by rw [same]; decide +kernel, same⟩

end Sample

end SchemaTypes
