import SchemaTypes.Proofs.Alias.Classification
import SchemaTypes.Proofs.Alias.Mentions
import SchemaTypes.Proofs.TypeExpr.Readings

/-!
# Names that are spelled like an alias

A body mentions an alias wherever it is spelled as a name: for a type, and as well for a property, a
parameter, a label, or a part of a qualified name.
-/

namespace SchemaTypes

open Relation Text TypeExpr

namespace Registry

variable (r : Registry)

/-- While the body of an alias is recognized, the name of another is read as the first identifier of
a type name. -/
def Refers (a b : Alias) : Prop := ReadAs (r.body a) .typeName b.name

/-- While the body of an alias is recognized, the name of another is read as a name of some kind. -/
def Spells (a b : Alias) : Prop := ∃ g ∈ Goal.naming, ReadAs (r.body a) g b.name

instance (a b : Alias) : Decidable (r.Refers a b) :=
  inferInstanceAs (Decidable (ReadAs (r.body a) .typeName b.name))

instance (a b : Alias) : Decidable (r.Spells a b) :=
  inferInstanceAs (Decidable (∃ g ∈ Goal.naming, ReadAs (r.body a) g b.name))

/-- The body of an alias is a type expression, and no template literal of it has an
interpolation. -/
structure Clear (a : Alias) : Prop where
  accepted : problem? (r.body a) = none
  plain : ∀ ts, tokens (r.body a) = .ok ts → NoHoles (ts.map (·.lexeme))

/-- An alias that is referred to leads to another by the names that bodies spell. -/
def Leads (a : Alias) : Prop := ∃ root ∈ r.referenced, ReflTransGen r.Spells root a

variable {r} {a b : Alias}

theorem mentions_iff_spells (clear : r.Clear a) : r.Mentions a b ↔ r.Spells a b := by
  obtain ⟨ts, read, derived⟩ := exists_tokens_of_accepted clear.accepted
  have ordinary : b.name ∉ Goal.keywords := by cases b <;> decide
  unfold Mentions dependencies
  rw [mem_mentionedIn_iff read (clear.plain ts read) derived, Goal.word_mem_iff derived ordinary]
  constructor
  · rintro ⟨g, names, taken⟩
    exact ⟨g, names, ts, read, taken⟩
  · rintro ⟨g, names, ts', read', taken⟩
    obtain rfl : ts = ts' := Except.ok.inj (read.symm.trans read')
    exact ⟨g, names, taken⟩

end Registry

section

variable {α : Type} {R S : α → α → Prop} {x y : α}

theorem reflTransGen_congr (agree : ∀ y, ReflTransGen S x y → ∀ z, R y z ↔ S y z) :
    ReflTransGen R x y ↔ ReflTransGen S x y := by
  constructor
  · intro way
    induction way with
    | refl => exact .refl
    | tail _ edge ih => exact ih.tail ((agree _ ih _).1 edge)
  · intro way
    induction way with
    | refl => exact .refl
    | tail before edge ih => exact ih.tail ((agree _ before _).2 edge)

theorem transGen_congr (agree : ∀ y, ReflTransGen S x y → ∀ z, R y z ↔ S y z) :
    TransGen R x y ↔ TransGen S x y := by
  rw [TransGen.head'_iff, TransGen.head'_iff]
  refine exists_congr fun z => ?_
  rw [agree x .refl z]
  refine and_congr_right fun edge => reflTransGen_congr fun v way => ?_
  exact agree v (.head edge way)

end

namespace Registry

variable {r : Registry} {a b : Alias}

theorem spells_of_refers (h : r.Refers a b) : r.Spells a b := ⟨.typeName, by decide, h⟩

theorem Leads.trans (h : r.Leads a) (way : ReflTransGen r.Spells a b) : r.Leads b := by
  obtain ⟨root, referred, before⟩ := h
  exact ⟨root, referred, before.trans way⟩

theorem bad_iff_spells {root : Alias} (referred : root ∈ r.referenced)
    (clear : ∀ a, r.Leads a → r.Clear a) :
    r.Bad root ↔ ∃ a, ReflTransGen r.Spells root a ∧ TransGen r.Spells a a := by
  have leads : r.Leads root := ⟨root, referred, .refl⟩
  have agree {a : Alias} (leads : r.Leads a) (b : Alias) (way : ReflTransGen r.Spells a b)
      (c : Alias) : r.Mentions b c ↔ r.Spells b c :=
    mentions_iff_spells (clear b (leads.trans way))
  constructor
  · rintro ⟨a, way, reason⟩
    have way : ReflTransGen r.Spells root a := (reflTransGen_congr (agree leads)).1 way
    have onWay := leads.trans way
    have circle := reason.resolve_left fun invalid => invalid (clear a onWay).accepted
    exact ⟨a, way, (transGen_congr (agree onWay)).1 circle⟩
  · rintro ⟨a, way, circle⟩
    exact ⟨a, (reflTransGen_congr (agree leads)).2 way,
      .inr ((transGen_congr (agree (leads.trans way))).2 circle)⟩

theorem materialize_iff_not_bad :
    (r.materialize.errors = [] ∧ ∀ a ∈ r.referenced, r.materialize.Declares a) ↔
      ∀ a ∈ r.referenced, ¬ r.Bad a := by
  rw [errors_eq_nil_iff]
  refine and_iff_left_of_imp fun good a referred => ?_
  exact (declares_iff_of_referenced referred).2 (good a referred)

/-- **Names in a circle are what is rejected.** Let the aliases that are referred to lead, by the
names that bodies spell, to aliases with accepted bodies only, without interpolations in template
literals. Then each of these depends on exactly the aliases that its body spells as a name: as the
first identifier of a type name, or for a property, a parameter, a label or a part of a qualified
name. There are no errors, and all that is referred to is declared, exactly if none of them leads
to itself. So where aliases are spelled for type names only, it is enough that no alias refers to
itself through others. -/
theorem materialize_iff_spells (r : Registry) (clear : ∀ a, r.Leads a → r.Clear a) :
    (∀ a, r.Leads a → ∀ b, b ∈ r.dependencies a ↔ r.Spells a b) ∧
    ((r.materialize.errors = [] ∧ ∀ a ∈ r.referenced, r.materialize.Declares a) ↔
      ∀ a, r.Leads a → ¬ TransGen r.Spells a a) ∧
    ((∀ a, r.Leads a → ∀ b, r.Spells a b → r.Refers a b) →
      (∀ a, r.Leads a → ¬ TransGen r.Refers a a) →
      r.materialize.errors = [] ∧ ∀ a ∈ r.referenced, r.materialize.Declares a) := by
  have accepted : (r.materialize.errors = [] ∧ ∀ a ∈ r.referenced, r.materialize.Declares a) ↔
      ∀ a, r.Leads a → ¬ TransGen r.Spells a a := by
    rw [materialize_iff_not_bad]
    constructor
    · rintro good a ⟨root, referred, way⟩ circle
      exact good root referred ((bad_iff_spells referred clear).2 ⟨a, way, circle⟩)
    · intro noCircle root referred bad
      obtain ⟨a, way, circle⟩ := (bad_iff_spells referred clear).1 bad
      exact noCircle a ⟨root, referred, way⟩ circle
  refine ⟨fun a leads b => mentions_iff_spells (clear a leads), accepted, ?_⟩
  intro only noCircle
  refine accepted.2 fun a leads circle => noCircle a leads ?_
  refine (transGen_congr fun b way c => ?_).2 circle
  exact ⟨spells_of_refers, only b (leads.trans way) c⟩

end Registry

namespace Keyed

/-- A registry that refers to an alias whose body has one property. -/
def registry (property : Text) : Registry where
  bodies := { PerAlias.ofFun fun _ => "T" with maybe := "\x7b " ++ property ++ ": T \x7d" }
  noExport := false
  referenced := AliasSet.empty.insert .maybe

theorem body_induction {P : Text → Prop} {property : Text}
    (keyed : P ((registry property).body .maybe)) (other : P "T") (a : Alias) :
    P ((registry property).body a) := by
  cases a
  case maybe => exact keyed
  all_goals exact other

/-- A property spelled like another alias makes it a dependency, which is declared as well. -/
theorem declares_property : .inputMaybe ∈ (registry "InputMaybe").dependencies .maybe ∧
    ¬ (registry "InputMaybe").Refers .maybe .inputMaybe ∧
    (registry "InputMaybe").materialize.errors = [] ∧
    ∀ a ∈ (registry "InputMaybe").referenced, (registry "InputMaybe").materialize.Declares a := by
  have accepted : ∀ a, problem? ((registry "InputMaybe").body a) = none :=
    body_induction (P := (problem? · = none)) (by decide +kernel) (by decide +kernel)
  have free : ∀ a, backquote ∉ (registry "InputMaybe").body a :=
    body_induction (P := (backquote ∉ ·)) (by decide +kernel) (by decide +kernel)
  have keyed (b : Alias) : (registry "InputMaybe").Spells .maybe b → b = .inputMaybe := by
    cases b <;> decide +kernel
  have other : ∀ b ∈ Alias.all, ¬ ∃ g ∈ Goal.naming, ReadAs "T" g b.name := by decide +kernel
  have only (a b : Alias) (edge : (registry "InputMaybe").Spells a b) :
      a = .maybe ∧ b = .inputMaybe := by
    cases a
    case maybe => exact ⟨rfl, keyed b edge⟩
    all_goals exact absurd edge (other b b.mem_all)
  have ok := (Registry.materialize_iff_spells (registry "InputMaybe") fun a _ =>
    ⟨accepted a, fun _ read => noHoles_of_noBackquote read (free a)⟩).2.1.2
  refine ⟨by decide +kernel, by decide +kernel, ok fun a _ circle => ?_⟩
  obtain ⟨b, edge, back⟩ := TransGen.head'_iff.1 circle
  obtain ⟨rfl, rfl⟩ := only a b edge
  rcases back.cases_head with same | ⟨c, edge', -⟩
  · cases same
  · cases (only _ c edge').1

/-- A property spelled like its own alias is an error, although the body is accepted and no alias
refers to itself through others. -/
theorem rejects_without_reference : (∀ a, problem? ((registry "Maybe").body a) = none) ∧
    (∀ a, ¬ TransGen (registry "Maybe").Refers a a) ∧
    .maybe ∈ (registry "Maybe").dependencies .maybe ∧
    ¬ ((registry "Maybe").materialize.errors = [] ∧
      ∀ a ∈ (registry "Maybe").referenced, (registry "Maybe").materialize.Declares a) := by
  have noReference (a : Alias) : ∀ b ∈ Alias.all, ¬ (registry "Maybe").Refers a b :=
    body_induction (P := fun body => ∀ b ∈ Alias.all, ¬ ReadAs body .typeName b.name)
      (by decide +kernel) (by decide +kernel) a
  refine ⟨?_, fun a circle => ?_, by decide +kernel, fun ok => ?_⟩
  · exact body_induction (P := (problem? · = none)) (by decide +kernel) (by decide +kernel)
  · obtain ⟨b, edge, -⟩ := TransGen.head'_iff.1 circle
    exact noReference a b b.mem_all edge
  · exact absurd ok.1 (by decide +kernel)

end Keyed

end SchemaTypes
