import Mathlib.Logic.Relation
import SchemaTypes.Alias.Registry

namespace SchemaTypes.Registry

open Relation

variable (r : Registry)

/-- The body of an alias mentions another. -/
def Mentions (a b : Alias) : Prop := b ∈ r.dependencies a

/-- There is a way from an alias to another, perhaps of no length. -/
def Reaches : Alias → Alias → Prop := ReflTransGen r.Mentions

def OnCycle (a : Alias) : Prop := TransGen r.Mentions a a

/-- The body of an alias is no type expression. -/
def Invalid (a : Alias) : Prop := TypeExpr.problem? (r.body a) ≠ none

/-- An invalid body or a cycle can be reached. -/
def Bad (a : Alias) : Prop := ∃ b, r.Reaches a b ∧ (r.Invalid b ∨ r.OnCycle b)

/-- The aliases referred to, and for each with a valid body the aliases that it mentions, up to the
first bad one. -/
inductive Visited : Alias → Prop where
  | root {a} : a ∈ r.referenced → Visited a
  | dependency {a d before after} : Visited a → ¬ r.Invalid a →
      r.dependencies a = before ++ d :: after → (∀ c ∈ before, ¬ r.Bad c) → Visited d

/-- Every alias comes after those that it mentions, and only once. -/
inductive Ordered : List Alias → Prop where
  | nil : Ordered []
  | snoc {as a} : Ordered as → a ∉ as → (∀ d, r.Mentions a d → d ∈ as) → Ordered (as ++ [a])

variable {r} {a b d : Alias} {as : List Alias}

theorem mentions_of_split {before after : List Alias}
    (split : r.dependencies a = before ++ d :: after) : r.Mentions a d := by
  unfold Mentions
  simp [split]

theorem invalid_iff : r.Invalid a ↔ ∃ e, TypeExpr.check (r.body a) = .error e := by
  simp only [Invalid, Option.ne_none_iff_exists', TypeExpr.problem?_eq_some_iff]
  exact ⟨fun ⟨_, e, invalid, _⟩ => ⟨e, invalid⟩, fun ⟨e, invalid⟩ => ⟨_, e, invalid, rfl⟩⟩

theorem not_invalid (valid : TypeExpr.check (r.body a) = .ok ()) : ¬ r.Invalid a := by
  simp [invalid_iff, valid]

theorem bad_of_invalid (h : r.Invalid a) : r.Bad a := ⟨a, .refl, .inl h⟩

theorem bad_of_mentions (edge : r.Mentions a d) (h : r.Bad d) : r.Bad a := by
  obtain ⟨b, way, reason⟩ := h
  exact ⟨b, .head edge way, reason⟩

theorem bad_of_reaches (way : r.Reaches a b) (h : r.Bad b) : r.Bad a := by
  obtain ⟨c, rest, reason⟩ := h
  exact ⟨c, way.trans rest, reason⟩

theorem bad_of_refersBack (edge : r.Mentions a d) (way : r.Reaches d a) : r.Bad a :=
  ⟨a, .refl, .inr (.head' edge way)⟩

theorem not_bad (valid : ¬ r.Invalid a) (deps : ∀ d, r.Mentions a d → ¬ r.Bad d) : ¬ r.Bad a := by
  rintro ⟨b, way, reason⟩
  rcases way.cases_head with rfl | ⟨d, edge, rest⟩
  · rcases reason with invalid | cycle
    · exact valid invalid
    · obtain ⟨d, edge, back⟩ := TransGen.head'_iff.1 cycle
      exact deps d edge ⟨a, back, .inr cycle⟩
  · exact deps d edge ⟨b, rest, reason⟩

theorem Visited.reached (h : r.Visited a) : ∃ root ∈ r.referenced, r.Reaches root a := by
  induction h with
  | @root a referred => exact ⟨a, referred, .refl⟩
  | @dependency a d before after _ _ deps _ ih =>
    obtain ⟨root, referred, way⟩ := ih
    exact ⟨root, referred, way.tail (mentions_of_split deps)⟩

theorem Ordered.nodup (h : r.Ordered as) : as.Nodup := by
  induction h with
  | nil => exact List.nodup_nil
  | snoc _ fresh _ ih =>
    rw [List.nodup_append]
    refine ⟨ih, List.pairwise_singleton _ _, ?_⟩
    rintro b mem c last rfl
    rw [List.mem_singleton] at last
    subst last
    exact fresh mem

theorem Ordered.closed (h : r.Ordered as) (mem : a ∈ as) (edge : r.Mentions a d) : d ∈ as := by
  induction h with
  | nil => cases mem
  | snoc _ _ deps ih =>
    rw [List.mem_append, List.mem_singleton] at mem ⊢
    rcases mem with old | rfl
    · exact .inl (ih old)
    · exact .inl (deps d edge)

theorem Ordered.congr {r' : Registry} (h : r.Ordered as) (same : r'.Mentions = r.Mentions) :
    r'.Ordered as := by
  induction h with
  | nil => exact .nil
  | snoc _ fresh deps ih => exact .snoc ih fresh fun d edge => deps d (same ▸ edge)

theorem Ordered.reaches (h : r.Ordered as) (mem : a ∈ as) (way : r.Reaches a b) : b ∈ as := by
  induction way with
  | refl => exact mem
  | tail _ edge ih => exact h.closed ih edge

theorem Ordered.earlier (h : r.Ordered as) {i : Nat} (at_i : as[i]? = some a)
    (edge : r.Mentions a d) : ∃ j < i, as[j]? = some d := by
  induction h with
  | nil => simp at at_i
  | @snoc as last _ _ deps ih =>
    have lengthen {j : Nat} {b : Alias} (at_j : as[j]? = some b) : (as ++ [last])[j]? = some b :=
      List.getElem?_append_left (List.getElem?_eq_some_iff.1 at_j).1 ▸ at_j
    rcases Nat.lt_or_ge i as.length with inside | outside
    · rw [List.getElem?_append_left inside] at at_i
      obtain ⟨j, before, at_j⟩ := ih at_i
      exact ⟨j, before, lengthen at_j⟩
    · have eq : last = a := by
        rw [List.getElem?_append_right outside] at at_i
        have := List.mem_of_getElem? at_i
        exact (List.mem_singleton.1 this).symm
      subst eq
      obtain ⟨j, at_j⟩ := List.getElem?_of_mem (deps d edge)
      have before : j < as.length := (List.getElem?_eq_some_iff.1 at_j).1
      exact ⟨j, by omega, lengthen at_j⟩

/-- Whatever can be reached from an alias in some steps stands at an earlier place. -/
theorem Ordered.earlier_of_transGen (h : r.Ordered as) {i : Nat} (at_i : as[i]? = some a)
    (way : TransGen r.Mentions a b) : ∃ j < i, as[j]? = some b := by
  induction way with
  | single edge => exact h.earlier at_i edge
  | tail _ edge ih =>
    obtain ⟨j, before, at_j⟩ := ih
    obtain ⟨k, before', at_k⟩ := h.earlier at_j edge
    exact ⟨k, Nat.lt_trans before' before, at_k⟩

end SchemaTypes.Registry
