/-
Integers of 64 bits, in the two builds.

A build checks arithmetic or it does not: where a result does not fit, a debug build
panics, and a release build wraps it round.  A result that fits is the same in both.
-/
import Mathlib.Algebra.Ring.Int.Defs
import Mathlib.Algebra.Ring.Nat

namespace RustStd

inductive Profile where
  | dev
  | release
  deriving DecidableEq, Repr

/-- An unsigned result of 64 bits; nothing comes of an overflow that panics. -/
def unsigned (profile : Profile) (n : Nat) : Option Nat :=
  if n < 2 ^ 64 then some n
  else match profile with
    | .dev => none
    | .release => some (n % 2 ^ 64)

/-- A signed result of 64 bits. -/
def signed (profile : Profile) (n : Int) : Option Int :=
  if -2 ^ 63 ≤ n ∧ n < 2 ^ 63 then some n
  else match profile with
    | .dev => none
    | .release => some (n.bmod (2 ^ 64))

/-- `n as i64` -/
def asI64 (n : Nat) : Int := (n : Int).bmod (2 ^ 64)

theorem unsigned_of_lt {n : Nat} (h : n < 2 ^ 64) (profile : Profile) : unsigned profile n = some n := if_pos h

theorem unsigned_eq_none {profile : Profile} {n : Nat} :
    unsigned profile n = none ↔ profile = .dev ∧ 2 ^ 64 ≤ n := by
  unfold unsigned
  split_ifs with hn
  · exact iff_of_false (by simp) fun h => Nat.not_lt.mpr h.2 hn
  · cases profile with
    | dev => exact iff_of_true rfl ⟨rfl, Nat.le_of_not_lt hn⟩
    | release => simp

theorem signed_eq_none {profile : Profile} {n : Int} :
    signed profile n = none ↔ profile = .dev ∧ ¬ (-2 ^ 63 ≤ n ∧ n < 2 ^ 63) := by
  unfold signed
  split_ifs with hn
  · exact iff_of_false (by simp) fun h => h.2 hn
  · cases profile with
    | dev => exact iff_of_true rfl ⟨rfl, hn⟩
    | release => simp

end RustStd
