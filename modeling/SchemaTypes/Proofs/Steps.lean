namespace SchemaTypes

/-- A number of steps leads from one state to another. -/
inductive Steps {α : Type} (step : α → α → Prop) : Nat → α → α → Prop where
  | none {a} : Steps step 0 a a
  | first {n a b c} : step a b → Steps step n b c → Steps step (n + 1) a c

namespace Steps

variable {α : Type} {step : α → α → Prop} {n : Nat} {a b : α}

theorem keeps {p : α → Prop} (each : ∀ a b, step a b → p a → p b) (run : Steps step n a b)
    (h : p a) : p b := by
  induction run with
  | none => exact h
  | first one _ ih => exact ih (each _ _ one h)

theorem add_measure_le (measure : α → Nat) (each : ∀ a b, step a b → measure b < measure a)
    (run : Steps step n a b) : n + measure b ≤ measure a := by
  induction run with
  | none => omega
  | first one _ ih =>
    have drops := each _ _ one
    omega

/-- A run of steps that move on below a limit takes no more of them than there are places left. -/
theorem le_places_left {limit : Nat} (place : α → Nat)
    (each : ∀ a b, step a b → place a < limit ∧ place a < place b) (run : Steps step n a b) :
    n ≤ limit - place a := by
  have drops : ∀ a b, step a b → limit - place b < limit - place a := by
    intro a b one
    have moves := each a b one
    omega
  have steps := run.add_measure_le (fun a => limit - place a) drops
  omega

end Steps

end SchemaTypes
