import SchemaTypes.Proofs.Alias.Settling

/-!
# Settling as a run of steps

Each step settles one alias, and no alias is settled twice. It is declared behind all that its body
mentions; or it is rejected for its body, for a way from what it mentions back to it, or for the
sake of a rejected alias that it mentions.
-/

namespace SchemaTypes.Registry

open Relation

variable (r : Registry)

/-- An alias with a valid body is about to be settled, and of all that it mentions the first that is
not declared is `d`. -/
structure ComesTo (m : Materialized) (a d : Alias) : Prop where
  fresh : ¬ m.settles a = true
  valid : ¬ r.Invalid a
  split : ∃ before after, r.dependencies a = before ++ d :: after ∧ ∀ c ∈ before, c ∈ m.declared

/-- One alias is settled. -/
inductive Step : Materialized → Materialized → Prop where
  | declare {m a} : ¬ m.settles a = true → ¬ r.Invalid a →
      (∀ d, r.Mentions a d → d ∈ m.declared) → Step m (m.declare r a)
  | invalid {m a e} : ¬ m.settles a = true → TypeExpr.check (r.body a) = .error e →
      Step m (m.rejectFor r a (.invalidExpression e))
  | cycle {m a d} : r.ComesTo m a d → r.Reaches d a → Step m (m.rejectFor r a (.refersBack a d))
  | dependent {m a d} : r.ComesTo m a d → d ∈ m.failed → Step m (m.reject a)

variable {r} {closed : List Alias} {a d : Alias} {m m' : Materialized}

theorem ComesTo.mentions (h : r.ComesTo m a d) : r.Mentions a d := by
  obtain ⟨before, after, split, -⟩ := h.split
  exact mentions_of_split split

/-- Settling an alias is a run of steps, and so is settling it after the first of its
dependencies. -/
theorem settle_run :
    (∀ closed a m, r.Way closed a → r.Consistent closed m → r.Visited a →
      ReflTransGen r.Step m (r.settle closed a m)) ∧
    ∀ closed a deps m, r.Way closed a → r.Consistent closed m → ¬ m.settles a = true →
      ¬ r.Invalid a → r.Visited a → ∀ processed, r.dependencies a = processed ++ deps →
      (∀ c ∈ processed, c ∈ m.declared) →
      ReflTransGen r.Step m (r.settleAfter closed a deps m) := by
  -- By the calls of the two functions, as for `settle_spec`, which tells what each call leaves to
  -- the step behind it.
  apply Registry.settle.mutual_induct r
  · intro closed a m settled _ _ _
    rw [settle, if_pos settled]
  · intro closed a m fresh e invalid _ _ _
    rw [settle, if_neg fresh, invalid]
    exact .single (.invalid fresh invalid)
  · intro closed a m fresh check ih way consistent visited
    rw [settle, if_neg fresh, check]
    exact ih way consistent fresh (not_invalid check) visited [] rfl (by simp)
  · intro closed a m _ _ fresh valid _ processed split declared
    rw [settleAfter]
    refine .single (.declare fresh valid fun d edge => declared d ?_)
    unfold Mentions at edge
    simpa [split] using edge
  · intro closed a m d rest off m₁ failed ih way consistent fresh valid visited processed split
      declared
    obtain ⟨onWay, before, visited'⟩ := way.next consistent valid visited split declared
    have first := settle_spec.1 _ d m onWay before visited'
    rw [settleAfter, if_pos off]
    simp only
    rw [if_pos failed]
    refine (ih onWay before visited').tail (.dependent ?_ failed)
    exact ⟨first.not_settles way off fresh, valid, processed, rest, split,
      fun c mem => first.keepsDeclared c (declared c mem)⟩
  · intro closed a m d rest off m₁ kept ih ih' way consistent fresh valid visited processed split
      declared
    obtain ⟨onWay, before, visited'⟩ := way.next consistent valid visited split declared
    have first := settle_spec.1 _ d m onWay before visited'
    have emitted : d ∈ m₁.declared :=
      (Materialized.settles_iff.1 first.settles).resolve_right kept
    rw [settleAfter, if_pos off]
    simp only
    rw [if_neg kept]
    refine (ih onWay before visited').trans (ih' way (first.consistent.back first.settles)
      (first.not_settles way off fresh) valid visited (processed ++ [d]) (by simp [split]) ?_)
    intro c mem
    rcases List.mem_append.1 mem with old | last
    · exact first.keepsDeclared c (declared c old)
    · exact List.mem_singleton.1 last ▸ emitted
  · intro closed a m d rest on way _ fresh valid _ processed split declared
    rw [settleAfter, if_neg on]
    exact .single (.cycle ⟨fresh, valid, processed, rest, split, declared⟩ (way.reaches d on))

theorem foldl_settleRoot_run {roots : List Alias} (visited : ∀ a ∈ roots, r.Visited a)
    (h : r.Consistent Alias.all m) : ReflTransGen r.Step m (roots.foldl r.settleRoot m) := by
  induction roots generalizing m with
  | nil => exact .refl
  | cons root rest ih =>
    obtain ⟨first, later⟩ := List.forall_mem_cons.1 visited
    exact (settle_run.1 _ root m way_root (h.step root) first).trans
      (ih later (settleRoot_spec h first).1)

theorem materialize_run (r : Registry) : ReflTransGen r.Step {} r.materialize :=
  foldl_settleRoot_run (fun _ mem => .root (AliasSet.mem_toList.1 mem)) consistent_empty

end SchemaTypes.Registry
