/-!
# Changes in place

A change works on a state where it stands: it looks at the state, checks what it is given and
changes the state, in any order. If it is refused on the way, what it has changed by then stays
changed.
-/

namespace SchemaTypes

/-- A change of a state in place. If it is refused, the state stays as it is by then. -/
abbrev Change (σ ε α : Type) := ExceptT ε (StateM σ) α

namespace Change

variable {σ ε α β : Type}

/-- What a change of a state gives, and the state after it. -/
def on (change : Change σ ε α) (s : σ) : Except ε α × σ := change.run.run s

/-- The state after a change, whether that is refused or not. -/
def after (change : Change σ ε α) (s : σ) : σ := (change.on s).2

/-- Where the change is refused, it leaves the state as it was. -/
def Atomic (change : Change σ ε α) : Prop :=
  ∀ s e, (change.on s).1 = .error e → change.after s = s

theorem on_bind (change : Change σ ε α) (rest : α → Change σ ε β) (s : σ) :
    (change >>= rest).on s =
      match change.on s with
      | (.ok a, s') => (rest a).on s'
      | (.error e, s') => (.error e, s') := by
  simp only [on, ExceptT.run_bind, StateT.run_bind]
  generalize change.run.run s = result
  rcases result with ⟨_ | a, s'⟩ <;> rfl

theorem on_bind_ok {change : Change σ ε α} {s s' : σ} {a : α} (h : change.on s = (.ok a, s'))
    (rest : α → Change σ ε β) : (change >>= rest).on s = (rest a).on s' := by
  rw [on_bind, h]

theorem on_bind_error {change : Change σ ε α} {s s' : σ} {e : ε} (h : change.on s = (.error e, s'))
    (rest : α → Change σ ε β) : (change >>= rest).on s = (.error e, s') := by
  rw [on_bind, h]

@[simp] theorem on_pure (a : α) (s : σ) : (pure a : Change σ ε α).on s = (.ok a, s) := rfl

@[simp] theorem on_throw (e : ε) (s : σ) : (throw e : Change σ ε α).on s = (.error e, s) := rfl

@[simp] theorem on_get (s : σ) : (get : Change σ ε σ).on s = (.ok s, s) := rfl

@[simp] theorem on_modify (f : σ → σ) (s : σ) :
    (modify f : Change σ ε Unit).on s = (.ok (), f s) := rfl

@[simp] theorem on_ofExcept (x : Except ε α) (s : σ) :
    (ofExcept x : Change σ ε α).on s = (x, s) := by
  cases x <;> rfl

end Change

end SchemaTypes
