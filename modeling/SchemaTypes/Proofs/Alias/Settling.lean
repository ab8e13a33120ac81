import SchemaTypes.Proofs.Alias.Graph

namespace SchemaTypes

open Relation

namespace Materialized

variable {m : Materialized} {r : Registry} {a b : Alias} {reason : Reason}

theorem settles_iff : m.settles a = true ↔ a ∈ m.declared ∨ a ∈ m.failed := by
  simp [settles]

@[simp] theorem mem_declared_declare : b ∈ (m.declare r a).declared ↔ b = a ∨ b ∈ m.declared :=
  AliasSet.mem_insert

@[simp] theorem failed_declare : (m.declare r a).failed = m.failed := rfl

@[simp] theorem declared_reject : (m.reject a).declared = m.declared := rfl

@[simp] theorem mem_failed_reject : b ∈ (m.reject a).failed ↔ b = a ∨ b ∈ m.failed :=
  AliasSet.mem_insert

end Materialized

namespace Registry

variable (r : Registry)

/-- What is true of the aliases settled so far, where `closed` holds those that are not on the way
from the root to the one being settled. -/
structure Consistent (closed : List Alias) (m : Materialized) : Prop where
  order : ∃ as, r.Ordered as ∧ m.declarations = as.map r.declaration ∧
    ∀ a, a ∈ m.declared ↔ a ∈ as
  good : ∀ a ∈ m.declared, ¬ r.Bad a
  bad : ∀ a ∈ m.failed, r.Bad a
  visited : ∀ a, m.settles a = true → r.Visited a
  /-- No alias that has to be looked at is passed over, unless it is on the way. -/
  complete : ∀ a, m.settles a = true → ¬ r.Invalid a → ∀ before d after,
    r.dependencies a = before ++ d :: after → (∀ c ∈ before, ¬ r.Bad c) →
    m.settles d = true ∨ d ∉ closed
  reported : ∀ a ∈ m.failed, m.errors ≠ []
  blamed : m.errors ≠ [] → ∃ a, a ∈ m.failed

/-- The aliases not in `closed` are on the way from the root to an alias. -/
structure Way (closed : List Alias) (a : Alias) : Prop where
  nodup : closed.Nodup
  last : a ∉ closed
  reaches : ∀ p, p ∉ closed → r.Reaches p a

/-- What settling an alias does. -/
structure Settled (closed : List Alias) (a : Alias) (m m' : Materialized) : Prop where
  consistent : r.Consistent closed m'
  settles : m'.settles a = true
  keepsDeclared : ∀ b ∈ m.declared, b ∈ m'.declared
  keepsFailed : ∀ b ∈ m.failed, b ∈ m'.failed
  frame : ∀ b, m'.settles b = true → m.settles b = true ∨ b = a ∨ b ∈ closed

variable {r} {closed : List Alias} {a d : Alias} {m m' : Materialized}

theorem Way.step (way : r.Way closed a) (edge : r.Mentions a d) :
    r.Way (closed.erase d) d where
  nodup := way.nodup.erase d
  last := way.nodup.not_mem_erase
  reaches p on := by
    by_cases same : p = d
    · exact same ▸ .refl
    · rw [List.mem_erase_of_ne same] at on
      exact (way.reaches p on).tail edge

theorem Way.bad (way : r.Way closed a) (edge : r.Mentions a d) (on : d ∉ closed) :
    r.Bad a ∧ r.Bad d := by
  have back := way.reaches d on
  refine ⟨bad_of_refersBack edge back, ?_⟩
  obtain ⟨b, rest, reason⟩ := bad_of_refersBack edge back
  exact ⟨b, back.trans rest, reason⟩

theorem Consistent.step (h : r.Consistent closed m) (d : Alias) :
    r.Consistent (closed.erase d) m :=
  { h with
    complete := fun a settled valid before x after deps good =>
      (h.complete a settled valid before x after deps good).imp_right
        fun off mem => off (List.mem_of_mem_erase mem) }

theorem Consistent.back (h : r.Consistent (closed.erase d) m) (settled : m.settles d = true) :
    r.Consistent closed m :=
  { h with
    complete := fun a settled' valid before x after deps good => by
      rcases h.complete a settled' valid before x after deps good with done | off
      · exact .inl done
      · by_cases same : x = d
        · exact .inl (same ▸ settled)
        · rw [List.mem_erase_of_ne same] at off
          exact .inr off }

/-- An alias with a bad dependency behind good ones has no other that has to be looked at. -/
theorem mem_of_split {before after processed rest : List Alias} {x : Alias}
    (split : before ++ x :: after = processed ++ d :: rest) (good : ∀ c ∈ before, ¬ r.Bad c)
    (bad : r.Bad d) : x ∈ processed ∨ x = d := by
  rcases List.append_eq_append_iff.1 split with ⟨more, eq, eq'⟩ | ⟨more, eq, eq'⟩
  · cases more with
    | nil => exact .inr (List.cons.inj eq').1
    | cons y more =>
      obtain ⟨rfl, -⟩ := List.cons.inj eq'
      exact .inl (by simp [eq])
  · cases more with
    | nil => exact .inr (List.cons.inj eq').1.symm
    | cons y more =>
      obtain ⟨rfl, -⟩ := List.cons.inj eq'
      exact absurd bad (good d (by simp [eq]))

theorem Settled.reject {errors : List ConfigurationError} (h : r.Consistent closed m)
    (bad : r.Bad a) (visited : r.Visited a) (reported : errors ≠ [])
    (complete : ¬ r.Invalid a → ∀ before d after, r.dependencies a = before ++ d :: after →
      (∀ c ∈ before, ¬ r.Bad c) → m.settles d = true ∨ d ∉ closed) :
    r.Settled closed a m { m.reject a with errors } := by
  have settles (b : Alias) :
      ({ m.reject a with errors } : Materialized).settles b = true ↔
        b = a ∨ m.settles b = true := by
    simp only [Materialized.settles_iff, Materialized.declared_reject,
      Materialized.mem_failed_reject]
    exact or_left_comm
  refine ⟨⟨h.order, h.good, ?_, ?_, ?_, fun _ _ => reported, ?_⟩, ?_, fun _ => id, ?_, ?_⟩
  · intro b mem
    rcases Materialized.mem_failed_reject.1 mem with rfl | old
    · exact bad
    · exact h.bad b old
  · intro b settled
    rcases (settles b).1 settled with rfl | old
    · exact visited
    · exact h.visited b old
  · intro b settled valid before x after deps good
    refine Or.imp_left (fun old => (settles x).2 (.inr old)) ?_
    rcases (settles b).1 settled with rfl | old
    · exact complete valid before x after deps good
    · exact h.complete b old valid before x after deps good
  · exact fun _ => ⟨a, Materialized.mem_failed_reject.2 (.inl rfl)⟩
  · exact (settles a).2 (.inl rfl)
  · exact fun b mem => Materialized.mem_failed_reject.2 (.inr mem)
  · intro b settled
    rcases (settles b).1 settled with rfl | old
    · exact .inr (.inl rfl)
    · exact .inl old

theorem Settled.declare (h : r.Consistent closed m) (fresh : ¬ m.settles a = true)
    (valid : ¬ r.Invalid a) (visited : r.Visited a)
    (deps : ∀ d, r.Mentions a d → d ∈ m.declared) :
    r.Settled closed a m (m.declare r a) := by
  have settles (b : Alias) :
      (m.declare r a).settles b = true ↔ b = a ∨ m.settles b = true := by
    simp only [Materialized.settles_iff, Materialized.failed_declare,
      Materialized.mem_declared_declare, or_assoc]
  obtain ⟨as, ordered, declarations, members⟩ := h.order
  refine ⟨⟨⟨as ++ [a], ?_, ?_, ?_⟩, ?_, h.bad, ?_, ?_, h.reported, h.blamed⟩, ?_, ?_,
    fun _ => id, ?_⟩
  · refine ordered.snoc ?_ fun d edge => (members d).1 (deps d edge)
    exact fun mem => fresh (Materialized.settles_iff.2 (.inl ((members a).2 mem)))
  · simp [Materialized.declare, declarations]
  · intro b
    rw [Materialized.mem_declared_declare, members, List.mem_append, List.mem_singleton]
    exact or_comm
  · intro b mem
    rcases Materialized.mem_declared_declare.1 mem with rfl | old
    · exact not_bad valid fun d edge => h.good d (deps d edge)
    · exact h.good b old
  · intro b settled
    rcases (settles b).1 settled with rfl | old
    · exact visited
    · exact h.visited b old
  · intro b settled valid' before x after split good
    refine Or.imp_left (fun old => (settles x).2 (.inr old)) ?_
    rcases (settles b).1 settled with rfl | old
    · exact .inl (Materialized.settles_iff.2 (.inl (deps x (mentions_of_split split))))
    · exact h.complete b old valid' before x after split good
  · exact (settles a).2 (.inl rfl)
  · exact fun b mem => Materialized.mem_declared_declare.2 (.inr mem)
  · intro b settled
    rcases (settles b).1 settled with rfl | old
    · exact .inr (.inl rfl)
    · exact .inl old

/-- What one alias does after a dependency of it is settled. -/
theorem Settled.trans {m₁ m₂ : Materialized} (off : d ∈ closed)
    (first : r.Settled (closed.erase d) d m m₁) (rest : r.Settled closed a m₁ m₂) :
    r.Settled closed a m m₂ where
  consistent := rest.consistent
  settles := rest.settles
  keepsDeclared b mem := rest.keepsDeclared b (first.keepsDeclared b mem)
  keepsFailed b mem := rest.keepsFailed b (first.keepsFailed b mem)
  frame b settled := by
    rcases rest.frame b settled with old | there
    · rcases first.frame b old with older | rfl | mem
      · exact .inl older
      · exact .inr (.inr off)
      · exact .inr (.inr (List.mem_of_mem_erase mem))
    · exact .inr there

theorem Settled.not_settles (way : r.Way closed a) (off : d ∈ closed)
    (h : r.Settled (closed.erase d) d m m') (fresh : ¬ m.settles a = true) :
    ¬ m'.settles a = true := by
  intro settled
  rcases h.frame a settled with old | rfl | mem
  · exact fresh old
  · exact way.last off
  · exact way.last (List.mem_of_mem_erase mem)

/-- A dependency behind declared ones is next on the way, and has to be looked at. -/
theorem Way.next (way : r.Way closed a) (consistent : r.Consistent closed m)
    (valid : ¬ r.Invalid a) (visited : r.Visited a) {before after : List Alias}
    (split : r.dependencies a = before ++ d :: after) (declared : ∀ c ∈ before, c ∈ m.declared) :
    r.Way (closed.erase d) d ∧ r.Consistent (closed.erase d) m ∧ r.Visited d :=
  ⟨way.step (mentions_of_split split), consistent.step d,
    visited.dependency valid split fun c mem => consistent.good c (declared c mem)⟩

/-- **Settling an alias.** It keeps all that is true of the settled aliases, settles the alias, and
besides only aliases that are not on the way to it; and the same of settling an alias after the
first of its dependencies. -/
theorem settle_spec :
    (∀ closed a m, r.Way closed a → r.Consistent closed m → r.Visited a →
      r.Settled closed a m (r.settle closed a m)) ∧
    ∀ closed a deps m, r.Way closed a → r.Consistent closed m → ¬ m.settles a = true →
      ¬ r.Invalid a → r.Visited a → ∀ processed, r.dependencies a = processed ++ deps →
      (∀ c ∈ processed, c ∈ m.declared) →
      r.Settled closed a m (r.settleAfter closed a deps m) := by
  -- By the calls of the two functions. What carries the induction is that the dependencies before
  -- the one in turn, `processed`, are declared.
  apply Registry.settle.mutual_induct r
  · intro closed a m settled way consistent visited
    rw [settle, if_pos settled]
    exact ⟨consistent, settled, fun _ => id, fun _ => id, fun _ => .inl⟩
  · intro closed a m fresh e invalid way consistent visited
    have unfit : r.Invalid a := invalid_iff.2 ⟨e, invalid⟩
    rw [settle, if_neg fresh, invalid]
    exact .reject consistent (bad_of_invalid unfit) visited (by simp) (absurd unfit)
  · intro closed a m fresh check ih way consistent visited
    rw [settle, if_neg fresh, check]
    exact ih way consistent fresh (not_invalid check) visited [] rfl (by simp)
  · intro closed a m way consistent fresh valid visited processed split declared
    rw [settleAfter]
    refine .declare consistent fresh valid visited fun d edge => declared d ?_
    unfold Mentions at edge
    simpa [split] using edge
  · intro closed a m d rest off m₁ failed ih way consistent fresh valid visited processed split
      declared
    obtain ⟨onWay, before, visited'⟩ := way.next consistent valid visited split declared
    have first := ih onWay before visited'
    have later := first.consistent.back first.settles
    have bad := later.bad d failed
    rw [settleAfter, if_pos off]
    simp only
    rw [if_pos failed]
    have reported : m₁.errors ≠ [] := later.reported d failed
    refine first.trans off (.reject later (bad_of_mentions (mentions_of_split split) bad) visited
      reported fun _ before x after split' good' => .inl ?_)
    rcases mem_of_split (split' ▸ split) good' bad with mem | rfl
    · exact Materialized.settles_iff.2 (.inl (first.keepsDeclared x (declared x mem)))
    · exact first.settles
  · intro closed a m d rest off m₁ kept ih ih' way consistent fresh valid visited processed split
      declared
    obtain ⟨onWay, before, visited'⟩ := way.next consistent valid visited split declared
    have first := ih onWay before visited'
    have later := first.consistent.back first.settles
    have emitted : d ∈ m₁.declared :=
      (Materialized.settles_iff.1 first.settles).resolve_right kept
    rw [settleAfter, if_pos off]
    simp only
    rw [if_neg kept]
    refine .trans off first (ih' way later (first.not_settles way off fresh) valid visited
      (processed ++ [d]) (by simp [split]) ?_)
    intro c mem
    rcases List.mem_append.1 mem with old | last
    · exact first.keepsDeclared c (declared c old)
    · exact List.mem_singleton.1 last ▸ emitted
  · intro closed a m d rest on way consistent fresh valid visited processed split declared
    obtain ⟨bad, bad'⟩ := way.bad (mentions_of_split split) on
    rw [settleAfter, if_neg on]
    refine .reject consistent bad visited (by simp) fun _ before x after split' good' => ?_
    rcases mem_of_split (split' ▸ split) good' bad' with mem | rfl
    · exact .inl (Materialized.settles_iff.2 (.inl (declared x mem)))
    · exact .inr on

theorem consistent_empty : r.Consistent Alias.all {} where
  order := ⟨[], .nil, rfl, by simp⟩
  good := by simp
  bad := by simp
  visited := by simp [Materialized.settles_iff]
  complete := by simp [Materialized.settles_iff]
  reported := by simp
  blamed := by simp

theorem way_root : r.Way (Alias.all.erase a) a := by
  have nodup : Alias.all.Nodup := by decide
  refine ⟨nodup.erase a, nodup.not_mem_erase, fun p on => ?_⟩
  by_cases same : p = a
  · exact same ▸ .refl
  · exact absurd ((List.mem_erase_of_ne same).2 (Alias.mem_all p)) on

theorem settleRoot_spec (h : r.Consistent Alias.all m) (visited : r.Visited a) :
    r.Consistent Alias.all (r.settleRoot m a) ∧ (r.settleRoot m a).settles a = true ∧
      ∀ b, m.settles b = true → (r.settleRoot m a).settles b = true := by
  have settled := settle_spec.1 _ a m way_root (h.step a) visited
  refine ⟨settled.consistent.back settled.settles, settled.settles, fun b old => ?_⟩
  rw [Materialized.settles_iff] at old
  exact Materialized.settles_iff.2
    (old.imp (settled.keepsDeclared b) (settled.keepsFailed b))

theorem foldl_settleRoot_spec {roots : List Alias} (visited : ∀ a ∈ roots, r.Visited a)
    (h : r.Consistent Alias.all m) :
    r.Consistent Alias.all (roots.foldl r.settleRoot m) ∧
      (∀ b, m.settles b = true → (roots.foldl r.settleRoot m).settles b = true) ∧
      ∀ a ∈ roots, (roots.foldl r.settleRoot m).settles a = true := by
  induction roots generalizing m with
  | nil => exact ⟨h, fun _ => id, by simp⟩
  | cons root rest ih =>
    obtain ⟨consistent, settles, keeps⟩ := settleRoot_spec h (visited root (.head _))
    obtain ⟨all, keeps', settles'⟩ := ih (fun a mem => visited a (.tail _ mem)) consistent
    refine ⟨all, fun b old => keeps' b (keeps b old), fun a mem => ?_⟩
    rcases List.mem_cons.1 mem with rfl | mem
    · exact keeps' a settles
    · exact settles' a mem

theorem materialize_consistent : r.Consistent Alias.all r.materialize :=
  (foldl_settleRoot_spec (fun _ mem => .root (AliasSet.mem_toList.1 mem)) consistent_empty).1

theorem settles_iff_visited : r.materialize.settles a = true ↔ r.Visited a := by
  constructor
  · exact materialize_consistent.visited a
  · intro visited
    induction visited with
    | @root a referred =>
      have roots := (foldl_settleRoot_spec (r := r)
        (fun _ mem => .root (AliasSet.mem_toList.1 mem)) consistent_empty).2.2
      exact roots a (AliasSet.mem_toList.2 referred)
    | @dependency a d before after _ valid split good ih =>
      have looked := materialize_consistent.complete a ih valid before d after split good
      exact looked.resolve_right fun off => off (Alias.mem_all d)

theorem mem_declared_iff : a ∈ r.materialize.declared ↔ r.Visited a ∧ ¬ r.Bad a := by
  rw [← settles_iff_visited, Materialized.settles_iff]
  constructor
  · exact fun mem => ⟨.inl mem, materialize_consistent.good a mem⟩
  · exact fun ⟨settled, good⟩ =>
      settled.resolve_right fun failed => good (materialize_consistent.bad a failed)

theorem mem_failed_iff : a ∈ r.materialize.failed ↔ r.Visited a ∧ r.Bad a := by
  rw [← settles_iff_visited, Materialized.settles_iff]
  constructor
  · exact fun mem => ⟨.inr mem, materialize_consistent.bad a mem⟩
  · exact fun ⟨settled, bad⟩ =>
      settled.resolve_left fun declared => materialize_consistent.good a declared bad

end Registry

end SchemaTypes
