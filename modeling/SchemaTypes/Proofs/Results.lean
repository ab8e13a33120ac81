import Mathlib.Data.List.Forall2

/-!
# Results that may be errors

How a result without errors came about, which error a result is, and how the results of two runs
compare.
-/

namespace SchemaTypes

variable {ε α β : Type} {f : α → Except ε β}

theorem map_eq_ok {x : Except ε α} {g : α → β} {b : β} :
    x.map g = .ok b ↔ ∃ a, x = .ok a ∧ g a = b := by
  cases x <;> simp [Except.map]

theorem map_map {γ : Type} (x : Except ε α) (g : α → β) (k : β → γ) :
    (x.map g).map k = x.map fun a => k (g a) := by
  cases x <;> rfl

theorem ok_get {x : Except ε α} (h : x.toOption.isSome) : x = .ok (x.toOption.get h) := by
  cases x with
  | error e => cases h
  | ok a => rfl

theorem eq_ok_of_toOption {x : Except ε α} {a : α} (h : x.toOption = some a) : x = .ok a := by
  cases x with
  | error e => cases h
  | ok b => exact congrArg Except.ok (Option.some.inj h)

theorem ok_bind (a : α) (f : α → Except ε β) : (Except.ok a >>= f) = f a := rfl

theorem error_bind (e : ε) (f : α → Except ε β) : (Except.error e >>= f) = .error e := rfl

theorem bind_eq_ok {x : Except ε α} {b : β} : (x >>= f) = .ok b ↔ ∃ a, x = .ok a ∧ f a = .ok b := by
  cases x <;> simp [bind, Except.bind]

theorem forall₂_of_mapM {xs : List α} {ys : List β} (h : xs.mapM f = .ok ys) :
    List.Forall₂ (fun x y => f x = .ok y) xs ys := by
  induction xs generalizing ys with
  | nil =>
    cases h
    exact .nil
  | cons x xs ih =>
    rw [List.mapM_cons] at h
    cases first : f x with
    | error e =>
      rw [first] at h
      cases h
    | ok y =>
      cases rest : xs.mapM f with
      | error e =>
        rw [first, rest] at h
        cases h
      | ok more =>
        rw [first, rest] at h
        cases h
        exact .cons first (ih rest)

theorem mapM_cons_eq_ok {x : α} {xs : List α} {zs : List β} : (x :: xs).mapM f = .ok zs ↔
    ∃ y ys, f x = .ok y ∧ xs.mapM f = .ok ys ∧ zs = y :: ys := by
  rw [List.mapM_cons]
  simp only [bind_eq_ok, pure, Except.pure, Except.ok.injEq, exists_and_left, @eq_comm _ _ zs]

theorem mapM_append_eq_ok {xs ys : List α} {zs : List β} : (xs ++ ys).mapM f = .ok zs ↔
    ∃ as bs, xs.mapM f = .ok as ∧ ys.mapM f = .ok bs ∧ zs = as ++ bs := by
  rw [List.mapM_append]
  simp only [bind_eq_ok, pure, Except.pure, Except.ok.injEq, exists_and_left, @eq_comm _ _ zs]

theorem mapM_singletons (f : α → Except ε β) (xs : List α) :
    (xs.mapM fun x => (f x).map ([·])).map List.flatten = xs.mapM f := by
  induction xs with
  | nil => rfl
  | cons x xs ih =>
    rw [List.mapM_cons, List.mapM_cons, ← ih]
    cases f x with
    | error e => rfl
    | ok y => cases xs.mapM fun x => (f x).map ([·]) <;> rfl

theorem mapM_map_right {γ : Type} (f : α → Except ε β) (g : β → γ) (xs : List α) :
    (xs.mapM fun x => (f x).map g) = (xs.mapM f).map (List.map g) := by
  induction xs with
  | nil => rfl
  | cons x xs ih =>
    rw [List.mapM_cons, List.mapM_cons, ih]
    cases f x with
    | error e => rfl
    | ok y => cases xs.mapM f <;> rfl

theorem mapM_flatMap {κ γ : Type} {parts : κ → List α} {f : α → Except ε (List γ)}
    {g : κ → Except ε (List γ)} {ks : List κ}
    (each : ∀ k ∈ ks, g k = ((parts k).mapM f).map List.flatten) :
    (ks.mapM g).map List.flatten = ((ks.flatMap parts).mapM f).map List.flatten := by
  induction ks with
  | nil => rfl
  | cons k ks ih =>
    obtain ⟨first, rest⟩ := List.forall_mem_cons.1 each
    specialize ih rest
    rw [List.mapM_cons, List.flatMap_cons, List.mapM_append, first]
    cases made : (parts k).mapM f with
    | error e => rfl
    | ok lists =>
      cases left : ks.mapM g <;> cases right : (ks.flatMap parts).mapM f
      all_goals
        rw [left, right] at ih
        simp_all [Except.map, bind, Except.bind, pure, Except.pure]

/-- If each step keeps a view of what it works on, so do all steps together. -/
theorem map_of_mapM {γ : Type} {view : α → γ} {view' : β → γ}
    (each : ∀ x y, f x = .ok y → view' y = view x) {xs : List α} {ys : List β}
    (h : xs.mapM f = .ok ys) : ys.map view' = xs.map view := by
  have pairs := forall₂_of_mapM h
  clear h
  induction pairs with
  | nil => rfl
  | cons first _ ih => rw [List.map_cons, List.map_cons, each _ _ first, ih]

theorem exists_of_mem_mapM {xs : List α} {ys : List β} (h : xs.mapM f = .ok ys) {y : β}
    (mem : y ∈ ys) : ∃ x ∈ xs, f x = .ok y := by
  have pairs := forall₂_of_mapM h
  clear h
  induction pairs with
  | nil => cases mem
  | @cons x z xs zs first _ ih =>
    rcases List.mem_cons.1 mem with rfl | later
    · exact ⟨x, .head _, first⟩
    · obtain ⟨x, mem, eq⟩ := ih later
      exact ⟨x, .tail _ mem, eq⟩

def error? : Except ε α → Option ε
  | .error e => some e
  | .ok _ => none

theorem error?_eq_some_iff {x : Except ε α} {e : ε} : error? x = some e ↔ x = .error e := by
  cases x <;> simp [error?]

theorem error?_map (x : Except ε α) (g : α → β) : error? (x.map g) = error? x := by
  cases x <;> rfl

/-- If what comes after a step fails in the same way whatever the step gives, the step's own error
comes first. -/
theorem error?_bind {x : Except ε α} {later : Option ε} (each : ∀ a, error? (f a) = later) :
    error? (x >>= f) = (error? x).or later := by
  cases x with
  | error e => rfl
  | ok a => exact each a

/-- The error of a traversal is the first error of its steps. -/
theorem error?_mapM (f : α → Except ε β) (xs : List α) :
    error? (xs.mapM f) = xs.findSome? fun x => error? (f x) := by
  induction xs with
  | nil => rfl
  | cons x xs ih =>
    rw [List.mapM_cons, List.findSome?_cons, ← ih]
    cases f x with
    | error e => rfl
    | ok y => cases xs.mapM f <;> rfl

/-! ## Two runs side by side -/

/-- A relation between results that is kept by all that is made of them. -/
structure ResultRelation (ε : Type) where
  Rel {α : Type} : Except ε α → Except ε α → Prop
  refl {α : Type} (x : Except ε α) : Rel x x
  bind {α β : Type} {x y : Except ε α} {f g : α → Except ε β} :
    Rel x y → (∀ a, Rel (f a) (g a)) → Rel (x >>= f) (y >>= g)

namespace ResultRelation

/-- The results are the same. -/
def equal (ε : Type) : ResultRelation ε where
  Rel x y := x = y
  refl _ := rfl
  bind same each := by rw [same, funext each]

/-- What succeeds in the first run succeeds in the second, with the same result. -/
def within (ε : Type) : ResultRelation ε where
  Rel x y := ∀ a, x = .ok a → y = .ok a
  refl _ _ := id
  bind first each b made := by
    obtain ⟨a, made, rest⟩ := bind_eq_ok.1 made
    exact bind_eq_ok.2 ⟨a, first a made, each a b rest⟩

variable {R : ResultRelation ε} {x y : Except ε α} {g : α → Except ε β}

theorem Rel.map (h : R.Rel x y) (k : α → β) : R.Rel (x.map k) (y.map k) := by
  have bound (z : Except ε α) : z.map k = z >>= fun a => .ok (k a) := by cases z <;> rfl
  rw [bound x, bound y]
  exact R.bind h fun _ => R.refl _

theorem rel_mapM {xs : List α} (each : ∀ x ∈ xs, R.Rel (f x) (g x)) :
    R.Rel (xs.mapM f) (xs.mapM g) := by
  induction xs with
  | nil => exact R.refl _
  | cons x xs ih =>
    obtain ⟨first, rest⟩ := List.forall_mem_cons.1 each
    rw [List.mapM_cons, List.mapM_cons]
    exact R.bind first fun _ => R.bind (ih rest) fun _ => R.refl _

end ResultRelation

theorem mapM_congr {g : α → Except ε β} {xs : List α} (same : ∀ x ∈ xs, f x = g x) :
    xs.mapM f = xs.mapM g :=
  ResultRelation.rel_mapM (R := .equal ε) same

/-- Two results are the same error, or values in a relation. -/
inductive Alongside {α' : Type} (R : α → α' → Prop) : Except ε α → Except ε α' → Prop where
  | error (e : ε) : Alongside R (.error e) (.error e)
  | ok {a a'} : R a a' → Alongside R (.ok a) (.ok a')

namespace Alongside

variable {α' β' : Type} {R : α → α' → Prop} {S : β → β' → Prop} {x : Except ε α} {y : Except ε α'}

theorem refl (x : Except ε α) : Alongside Eq x x := by
  cases x with
  | error e => exact .error e
  | ok a => exact .ok rfl

theorem map {f : α → β} {g : α' → β'} (h : Alongside R x y)
    (each : ∀ a a', R a a' → S (f a) (g a')) : Alongside S (x.map f) (y.map g) := by
  cases h with
  | error e => exact .error e
  | ok related => exact .ok (each _ _ related)

theorem bind {f : α → Except ε β} {g : α' → Except ε β'} (h : Alongside R x y)
    (each : ∀ a a', R a a' → Alongside S (f a) (g a')) : Alongside S (x >>= f) (y >>= g) := by
  cases h with
  | error e => exact .error e
  | ok related => exact each _ _ related

theorem mapM {f : α → Except ε β} {g : α → Except ε β'} {xs : List α}
    (each : ∀ x ∈ xs, Alongside S (f x) (g x)) :
    Alongside (List.Forall₂ S) (xs.mapM f) (xs.mapM g) := by
  induction xs with
  | nil => exact .ok .nil
  | cons x xs ih =>
    obtain ⟨first, rest⟩ := List.forall_mem_cons.1 each
    rw [List.mapM_cons, List.mapM_cons]
    exact first.bind fun _ _ head => (ih rest).bind fun _ _ tail => .ok (.cons head tail)

end Alongside

end SchemaTypes
