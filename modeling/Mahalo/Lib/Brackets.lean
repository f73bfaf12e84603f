/-
Openings and closings of one thing, in the order in which they happen.

A list of marks is paired if every opening is closed before the next one, and
pending if that is so but for a last opening.  A closing takes the second to the
first, and an opening the first to the second.
-/
import Mathlib.Data.List.Basic

namespace Brackets

variable {R : Type}

inductive Mark (R : Type) where
  | opened
  | closed (reason : R)
  deriving DecidableEq, Repr

def Paired : List (Mark R) → Prop
  | [] => True
  | .opened :: .closed _ :: rest => Paired rest
  | _ => False

def Pending (ms : List (Mark R)) : Prop := ∃ before, Paired before ∧ ms = before ++ [.opened]

theorem paired_nil : Paired ([] : List (Mark R)) := trivial

theorem paired_append {as bs : List (Mark R)} (ha : Paired as) (hb : Paired bs) :
    Paired (as ++ bs) := by
  induction as using Paired.induct with
  | case1 => exact hb
  | case2 reason rest ih => exact ih ha
  | case3 as h1 h2 =>
      rw [Paired] at ha
      · exact ha.elim
      · exact h1
      · exact h2

theorem Pending.close {ms : List (Mark R)} (h : Pending ms) (reason : R) :
    Paired (ms ++ [.closed reason]) := by
  obtain ⟨before, hbefore, rfl⟩ := h
  rw [List.append_assoc]
  exact paired_append hbefore trivial

theorem Paired.reopen {ms : List (Mark R)} (h : Paired ms) : Pending (ms ++ [.opened]) := ⟨ms, h, rfl⟩

end Brackets
