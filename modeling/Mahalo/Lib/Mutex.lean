/-
Mutexes that are poisoned by a panic.

What a thread does while it holds the lock is one step: it leaves another value and
takes something with it, or it panics there.  After a panic the mutex is poisoned, and
whoever unwraps the lock panics too.
-/
import Mathlib.Tactic.Basic

/-- `std::sync::Mutex` -/
structure Mutex (T : Type) where
  value : T
  poisoned : Bool
  deriving DecidableEq, Repr

namespace Mutex

variable {T X : Type}

def new (value : T) : Mutex T := { value, poisoned := false }

/-- `lock().unwrap()`, and what is done until the guard is dropped; nothing comes back from a panic. -/
def locked (m : Mutex T) (f : T → Option (T × X)) : Mutex T × Option X :=
  if m.poisoned then (m, none)
  else match f m.value with
    | some (value, x) => ({ m with value }, some x)
    | none => ({ m with poisoned := true }, none)

/-- A section that does not panic. -/
def lockedOk (m : Mutex T) (f : T → T × X) : Mutex T × Option X := m.locked fun value => some (f value)

variable {m : Mutex T}

theorem lockedOk_eq (f : T → T × X) : m.lockedOk f
    = if m.poisoned then (m, none) else ({ m with value := (f m.value).1 }, some (f m.value).2) := rfl

@[simp] theorem lockedOk_poisoned (f : T → T × X) : (m.lockedOk f).1.poisoned = m.poisoned := by
  rw [lockedOk_eq]
  split <;> rfl

/-- Where no one has panicked, a section panics if what is done in it does. -/
theorem locked_eq_none (h : m.poisoned = false) {f : T → Option (T × X)} :
    (m.locked f).2 = none ↔ f m.value = none := by
  unfold locked
  rw [h]
  cases f m.value <;> simp

/-- A section that was left is free again. -/
theorem locked_free {f : T → Option (T × X)} (h : (m.locked f).2.isSome = true) :
    (m.locked f).1.poisoned = false := by
  unfold locked at h ⊢
  split at h
  · cases h
  · rename_i hm
    rw [if_neg hm]
    cases hf : f m.value with
    | none => simp [hf] at h
    | some r => simpa using hm

/-- What holds of every value a section leaves holds of the value in the mutex. -/
theorem locked_value {I : T → Prop} (hI : I m.value) {f : T → Option (T × X)}
    (hf : ∀ value x, f m.value = some (value, x) → I value) : I (m.locked f).1.value := by
  unfold locked
  split
  · exact hI
  · split
    · rename_i value x hx
      exact hf value x hx
    · exact hI

theorem lockedOk_value {I : T → Prop} (hI : I m.value) {f : T → T × X} (hf : I (f m.value).1) :
    I (m.lockedOk f).1.value := by
  refine locked_value hI ?_
  intro value x h
  rw [Option.some.inj h] at hf
  exact hf

end Mutex
