import Coap.Fault

/-!
# Changes that may stop half-way

Some changes consist of several steps and stop at the first one that is refused; what the earlier
steps did stays. An `Edited` value holds both the outcome and what stopped it.
-/

namespace Coap

/-- What a change leaves behind. -/
structure Edited (α : Type) where
  /-- The thing after the change, or after as much of it as was possible. -/
  value : α
  /-- What stopped the change, if it is not complete. -/
  fault? : Option Fault

namespace Edited

variable {α β : Type}

/-- A complete change. -/
def done (value : α) : Edited α := ⟨value, none⟩

/-- A change that was stopped. -/
def stopped (value : α) (fault : Fault) : Edited α := ⟨value, some fault⟩

/-- A change of `old` that is either complete or does nothing. -/
def ofExcept (old : α) : Except Fault α → Edited α
  | .ok value => done value
  | .error fault => stopped old fault

/-- The same change seen from a thing that the changed one is part of. -/
def map (f : α → β) (e : Edited α) : Edited β := ⟨f e.value, e.fault?⟩

/-- The outcome of a complete change, or what stopped it. -/
def toExcept (e : Edited α) : Except Fault α :=
  match e.fault? with
  | none => .ok e.value
  | some fault => .error fault

/-- What was edited is given out just if there was no fault. -/
theorem toExcept_eq_ok_iff {e : Edited α} {a : α} :
    e.toExcept = .ok a ↔ e.fault? = none ∧ e.value = a := by
  obtain ⟨value, fault?⟩ := e
  cases fault? <;> simp [toExcept]

end Edited

end Coap
