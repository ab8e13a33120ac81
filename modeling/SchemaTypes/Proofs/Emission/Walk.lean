import SchemaTypes.Emission
import SchemaTypes.Proofs.Emission.Sequence

namespace SchemaTypes

namespace AliasSet

theorem unions_flatten {α : Type} {g : α → AliasSet} (lists : List (List α)) :
    unions (lists.map fun l => unions (l.map g)) = unions (lists.flatten.map g) := by
  apply ext_mem
  intro a
  simp only [mem_unions, List.mem_map, List.mem_flatten]
  constructor
  · rintro ⟨_, ⟨l, mem, rfl⟩, inside⟩
    obtain ⟨_, mapped, inside⟩ := mem_unions.1 inside
    obtain ⟨x, mem', rfl⟩ := List.mem_map.1 mapped
    exact ⟨_, ⟨x, ⟨l, mem, mem'⟩, rfl⟩, inside⟩
  · rintro ⟨_, ⟨x, ⟨l, mem, mem'⟩, rfl⟩, inside⟩
    refine ⟨_, ⟨l, mem, rfl⟩, mem_unions.2 ⟨_, List.mem_map_of_mem mem', inside⟩⟩

end AliasSet

namespace Registry

theorem referring_congr (r : Registry) {used used' : AliasSet} (h : ∀ a, a ∈ used ↔ a ∈ used') :
    r.referring used = r.referring used' := by
  rw [AliasSet.ext_mem h]

theorem referring_empty (r : Registry) : r.referring .empty = r := by
  have same : r.referenced.union .empty = r.referenced := AliasSet.ext_mem (by simp)
  rw [referring, same]

theorem referring_referring (r : Registry) (used used' : AliasSet) :
    (r.referring used).referring used' = r.referring (used.union used') := by
  have same : (r.referenced.union used).union used' = r.referenced.union (used.union used') :=
    AliasSet.ext_mem (by simp [or_assoc])
  simp only [referring, same]

/-- If every step of a walk refers to the aliases of what is made there, the whole walk refers to
those of all that is made. -/
theorem foldl_referring {ε α β : Type} {f : α → Except ε β} {used : β → AliasSet}
    {step : Registry → α → Registry}
    (each : ∀ x y, f x = .ok y → ∀ r, step r x = r.referring (used y)) {xs : List α}
    {ys : List β} (h : xs.mapM f = .ok ys) (r : Registry) :
    xs.foldl step r = r.referring (.unions (ys.map used)) := by
  have pairs := forall₂_of_mapM h
  clear h
  induction pairs generalizing r with
  | nil => exact r.referring_empty.symm
  | @cons x y xs ys first _ ih =>
    rw [List.foldl_cons, each x y first, ih, referring_referring]
    exact r.referring_congr (by simp)

variable (schema : Schema) (s : Settings)

/-- The registry after rendering the members of a type. -/
def afterMembers (owner : Text) (r : Registry) (fields : List Field) : Registry :=
  fields.foldl (fun r f => r.after (memberText schema s owner f)) r

/-- The registry after rendering the arguments of the fields of a type. -/
def afterArguments (r : Registry) (t : TypeDefinition) : Registry :=
  (t.fields.filter (!·.arguments.isEmpty)).foldl
    (fun r f => r.afterMembers schema s (t.name ++ "." ++ f.name) f.arguments) r

/-- The registry after declaring a type of some kind. -/
def afterType (k : Kind) (r : Registry) (t : TypeDefinition) : Registry :=
  match k with
  | .inputObject => r.afterMembers schema s t.name t.fields
  | .object | .interface => (r.afterMembers schema s t.name t.fields).afterArguments schema s t
  | .scalar | .enum | .union => r

/-- The registry after declaring the types of a kind. -/
def afterKind (r : Registry) (k : Kind) : Registry :=
  (schema.ofKind k).foldl (afterType schema s k) r

/-- The registry after declaring all types that the filter lets through. -/
def walk : Registry :=
  (Kind.declarationOrder.filter s.typeFilter.permits).foldl (afterKind schema s) s.registry

variable {schema s}

theorem afterMembers_eq {owner : Text} {fields : List Field} {members : Rendered}
    (h : membersText schema s owner fields = .ok members) (r : Registry) :
    r.afterMembers schema s owner fields = r.referring members.used := by
  obtain ⟨rendered, each, rfl⟩ := map_eq_ok.1 h
  refine foldl_referring (fun f member made r => ?_) each r
  rw [made]
  rfl

theorem afterContainer_eq {kind : DeclarationKind} {hasTypename : Bool} {t : TypeDefinition}
    {d : Declaration} (h : containerDeclaration schema s kind hasTypename t = .ok d)
    (r : Registry) : r.afterMembers schema s t.name t.fields = r.referring d.wrappers := by
  obtain ⟨members, made, rfl⟩ := map_eq_ok.1 h
  exact afterMembers_eq made r

theorem afterArguments_eq {t : TypeDefinition} {ds : List Declaration}
    (h : (t.fields.filter (!·.arguments.isEmpty)).mapM (argumentsDeclaration schema s t.name) =
      .ok ds) (r : Registry) :
    r.afterArguments schema s t = r.referring (.unions (ds.map (·.wrappers))) := by
  refine foldl_referring (fun f d made r => ?_) h r
  obtain ⟨members, made', rfl⟩ := map_eq_ok.1 made
  exact afterMembers_eq made' r

theorem afterBoth_eq {kind : DeclarationKind} {hasTypename : Bool} {t : TypeDefinition}
    {ds : List Declaration} (h : containerWithArguments schema s kind hasTypename t = .ok ds)
    (r : Registry) :
    (r.afterMembers schema s t.name t.fields).afterArguments schema s t =
      r.referring (.unions (ds.map (·.wrappers))) := by
  obtain ⟨d, container, more, arguments, rfl⟩ := containerWithArguments_eq_ok.1 h
  rw [afterContainer_eq container, afterArguments_eq arguments, referring_referring]
  exact r.referring_congr (by simp)

theorem referring_of_wrappers_empty {ds : List Declaration} (h : ∀ d ∈ ds, d.wrappers = .empty)
    (r : Registry) : r = r.referring (.unions (ds.map (·.wrappers))) := by
  have none : AliasSet.unions (ds.map (·.wrappers)) = .empty := by
    apply AliasSet.ext_mem
    intro a
    simp only [AliasSet.mem_unions, List.mem_map]
    constructor
    · rintro ⟨_, ⟨d, mem, rfl⟩, inside⟩
      exact h d mem ▸ inside
    · exact fun inside => absurd inside (AliasSet.not_mem_empty a)
  rw [none, referring_empty]

theorem afterKind_eq {k : Kind} {ds : List Declaration}
    (h : kindDeclarations schema s k = .ok ds) (r : Registry) :
    r.afterKind schema s k = r.referring (.unions (ds.map (·.wrappers))) := by
  have unmarked (types : List TypeDefinition) : types.foldl (fun r _ => r) r = r := by
    induction types with
    | nil => rfl
    | cons _ types ih => exact ih
  cases k with
  | scalar =>
    cases h
    exact (unmarked _).trans (referring_of_wrappers_empty (by simp [scalarsDeclaration]) r)
  | enum =>
    cases h
    exact (unmarked _).trans (referring_of_wrappers_empty (by simp [enumDeclaration]) r)
  | inputObject => exact foldl_referring (fun t d made r => afterContainer_eq made r) h r
  | object =>
    obtain ⟨lists, made, rfl⟩ := map_eq_ok.1 h
    rw [← AliasSet.unions_flatten]
    exact foldl_referring (fun t ds made r => afterBoth_eq made r) made r
  | interface =>
    obtain ⟨lists, made, rfl⟩ := map_eq_ok.1 h
    rw [← AliasSet.unions_flatten]
    exact foldl_referring (fun t ds made r => afterBoth_eq made r) made r
  | union =>
    refine (unmarked _).trans (referring_of_wrappers_empty (fun d mem => ?_) r)
    obtain ⟨t, -, made⟩ := exists_of_mem_mapM h mem
    unfold unionDeclaration at made
    split at made
    · cases made
    · cases made
      rfl

/-- **The walk refers to the aliases of what it declares.** -/
theorem walk_eq {ds : List Declaration} (h : typeDeclarations schema s = .ok ds) :
    walk schema s = s.registry.referring (.unions (ds.map (·.wrappers))) := by
  obtain ⟨lists, made, rfl⟩ := map_eq_ok.1 h
  rw [← AliasSet.unions_flatten]
  exact foldl_referring (fun k ds made r => afterKind_eq made r) made s.registry

end Registry

/-- The aliases of an emission are those that the registry comes to after the walk. -/
theorem materialized_eq_walk {schema : Schema} {s : Settings} {ds : List Declaration}
    (h : typeDeclarations schema s = .ok ds) :
    materialized s ds = (Registry.walk schema s).materialize := by
  rw [Registry.walk_eq h, materialized]

end SchemaTypes
