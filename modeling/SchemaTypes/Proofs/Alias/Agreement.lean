import SchemaTypes.Proofs.Alias.Graph

/-!
# What materializing reads

Settling an alias reads its body and those of the aliases that it leans on, and no others. How the
aliases are declared counts for nothing but the declarations.
-/

namespace SchemaTypes

/-- The same aliases with their declarations changed. -/
def Materialized.changed (change : Declaration → Declaration) (m : Materialized) : Materialized :=
  { m with declarations := m.declarations.map change }

@[simp] theorem Materialized.changed_id (m : Materialized) : m.changed id = m := by
  simp [changed]

namespace Registry

/-- Two registries have the same bodies for some aliases, which mention no others, and the second
declares these as the first does, but for a change. -/
structure Mirrors (r r' : Registry) (among : Alias → Prop) (change : Declaration → Declaration) :
    Prop where
  bodies : ∀ a, among a → r'.body a = r.body a
  declarations : ∀ a, among a → r'.declaration a = change (r.declaration a)
  closed : ∀ a, among a → ∀ d, r.Mentions a d → among d

namespace Mirrors

variable {r r' : Registry} {among : Alias → Prop} {change : Declaration → Declaration} {a : Alias}

theorem dependencies (h : r.Mirrors r' among change) (mem : among a) :
    r'.dependencies a = r.dependencies a := by
  rw [Registry.dependencies, Registry.dependencies, h.bodies a mem]

theorem declare (h : r.Mirrors r' among change) (mem : among a) (m : Materialized) :
    (m.changed change).declare r' a = (m.declare r a).changed change := by
  simp [Materialized.declare, Materialized.changed, h.declarations a mem]

theorem rejectFor (h : r.Mirrors r' among change) (mem : among a) (m : Materialized)
    (reason : Reason) :
    (m.changed change).rejectFor r' a reason = (m.rejectFor r a reason).changed change := by
  simp [Materialized.rejectFor, Materialized.reject, Materialized.changed, Registry.error,
    h.bodies a mem]

theorem settle (h : r.Mirrors r' among change) :
    (∀ closed a m, among a →
      r'.settle closed a (m.changed change) = (r.settle closed a m).changed change) ∧
    ∀ closed a deps m, among a → (∀ d ∈ deps, among d) →
      r'.settleAfter closed a deps (m.changed change) =
        (r.settleAfter closed a deps m).changed change := by
  -- By the calls in one registry; the calls in the other are the same.
  apply Registry.settle.mutual_induct r
  · intro closed a m settled mem
    rw [Registry.settle, Registry.settle, if_pos settled]
    exact if_pos settled
  · intro closed a m fresh e invalid mem
    have fresh' : ¬ (m.changed change).settles a := fresh
    rw [Registry.settle, Registry.settle, if_neg fresh, if_neg fresh', h.bodies a mem, invalid]
    exact h.rejectFor mem m _
  · intro closed a m fresh valid ih mem
    have fresh' : ¬ (m.changed change).settles a := fresh
    rw [Registry.settle, Registry.settle, if_neg fresh, if_neg fresh', h.bodies a mem, valid,
      h.dependencies mem]
    exact ih mem (h.closed a mem)
  · intro closed a m mem _
    rw [settleAfter, settleAfter, h.declare mem]
  · intro closed a m d rest off m₁ failed ih mem deps
    rw [settleAfter, settleAfter, if_pos off, if_pos off, ih (deps d (.head _))]
    simp only
    rw [if_pos failed]
    exact if_pos failed
  · intro closed a m d rest off m₁ kept ih ih' mem deps
    rw [settleAfter, settleAfter, if_pos off, if_pos off, ih (deps d (.head _))]
    simp only
    rw [if_neg kept, ← ih' mem fun c later => deps c (.tail _ later)]
    exact if_neg kept
  · intro closed a m d rest on mem _
    rw [settleAfter, settleAfter, if_neg on, if_neg on, h.rejectFor mem]

theorem materialize (h : r.Mirrors r' among change) (same : r'.referenced = r.referenced)
    (referenced : ∀ a ∈ r.referenced, among a) :
    r'.materialize = r.materialize.changed change := by
  have roots (as : List Alias) (inside : ∀ a ∈ as, among a) (m : Materialized) :
      as.foldl r'.settleRoot (m.changed change) = (as.foldl r.settleRoot m).changed change := by
    induction as generalizing m with
    | nil => rfl
    | cons a as ih =>
      rw [List.foldl_cons, List.foldl_cons, ← ih fun b mem => inside b (.tail _ mem)]
      rw [settleRoot, settleRoot, h.settle.1 _ a m (inside a (.head _))]
  unfold Registry.materialize
  rw [same]
  exact roots _ (fun a mem => referenced a (AliasSet.mem_toList.1 mem)) {}

end Mirrors

/-- Two registries have the same bodies for some aliases, which mention no others. -/
structure Agree (r r' : Registry) (among : Alias → Prop) : Prop where
  noExport : r'.noExport = r.noExport
  bodies : ∀ a, among a → r'.body a = r.body a
  closed : ∀ a, among a → ∀ d, r.Mentions a d → among d

namespace Agree

variable {r r' : Registry} {among : Alias → Prop}

theorem mirrors (h : r.Agree r' among) : r.Mirrors r' among id where
  bodies := h.bodies
  declarations := by
    intro a mem
    simp only [declaration, Registry.dependencies, h.noExport, h.bodies a mem, id]
  closed := h.closed

theorem materialize (h : r.Agree r' among) (same : r'.referenced = r.referenced)
    (referenced : ∀ a ∈ r.referenced, among a) : r'.materialize = r.materialize := by
  rw [h.mirrors.materialize same referenced, Materialized.changed_id]

end Agree

end Registry

end SchemaTypes
