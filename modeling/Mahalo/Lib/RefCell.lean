/-
Cells whose borrows are counted as the program runs.

A value may be borrowed by any number of readers or by one writer.  A borrow that would break
this panics, and every borrow ends where its guard is dropped.
-/
import Mathlib.Tactic.Basic

/-- `RefCell` -/
structure RefCell (α : Type) where
  value : α
  readers : Nat
  writing : Bool
  deriving DecidableEq, Repr

/-- `BorrowError` and `BorrowMutError`, which `borrow` and `borrow_mut` panic with. -/
inductive BorrowError where
  | borrow
  | borrowMut
  deriving DecidableEq, Repr

namespace RefCell

variable {α : Type}

def new (value : α) : RefCell α := { value, readers := 0, writing := false }

def borrow (cell : RefCell α) : Except BorrowError (RefCell α) :=
  if cell.writing then .error .borrow else .ok { cell with readers := cell.readers + 1 }

/-- A `Ref` is dropped. -/
def release (cell : RefCell α) : RefCell α := { cell with readers := cell.readers - 1 }

def borrowMut (cell : RefCell α) : Except BorrowError (RefCell α) :=
  if cell.writing ∨ cell.readers ≠ 0 then .error .borrowMut else .ok { cell with writing := true }

/-- A `RefMut` is dropped, and this is what it left. -/
def releaseMut (cell : RefCell α) (value : α) : RefCell α := { cell with value, writing := false }

/-- Where no writer is, a reader gets the value. -/
theorem borrow_eq {cell : RefCell α} (h : cell.writing = false) :
    cell.borrow = .ok { cell with readers := cell.readers + 1 } :=
  if_neg (by simp [h])

theorem borrowMut_eq {cell : RefCell α} (h : cell.writing = false) :
    cell.borrowMut = if cell.readers = 0 then .ok { cell with writing := true } else .error .borrowMut := by
  unfold borrowMut
  by_cases hreaders : cell.readers = 0 <;> simp [h, hreaders]

end RefCell
