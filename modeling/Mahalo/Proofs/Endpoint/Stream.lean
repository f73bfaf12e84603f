/-
What the readers use of reads and of `Vec` operations.
-/
import Mahalo.Endpoint.Stream

namespace Mahalo

open Segments

/-! ### `Vec` operations -/

theorem copyWithin_length {buf : List UInt8} {lo hi : Nat} (h : hi ≤ buf.length) (hlo : lo ≤ hi) :
    (copyWithin buf lo hi).length = buf.length := by
  unfold copyWithin
  rw [List.length_append, List.length_drop, List.length_take, List.length_drop]
  omega

theorem copyWithin_take {buf : List UInt8} {lo hi : Nat} (h : hi ≤ buf.length) (hlo : lo ≤ hi) :
    (copyWithin buf lo hi).take (hi - lo) = (buf.take hi).drop lo := by
  unfold copyWithin
  have hlen : ((buf.take hi).drop lo).length = hi - lo := by
    rw [List.length_drop, List.length_take]
    omega
  rw [List.take_append_of_le_length (by omega), List.take_of_length_le (by omega)]

theorem resize_length {buf : List UInt8} {n : Nat} (h : buf.length ≤ n) :
    (resize buf n).length = n := by
  unfold resize
  rw [List.length_append, List.length_take, List.length_replicate]
  omega

/-- Growing keeps the contents in front. -/
theorem resize_take {buf : List UInt8} {n : Nat} (h : buf.length ≤ n) :
    (resize buf n).take buf.length = buf := by
  unfold resize
  rw [List.take_of_length_le h, List.take_left]

/-! ### Reads -/

namespace Incoming

variable (limit : Segment UInt8 → Nat) {inc : Incoming}

/-- After the end, a read returns 0 or fails. -/
theorem readUpTo_over (h : inc.segs = []) :
    ∃ rest, inc.readUpTo limit = (.err, rest) ∨ inc.readUpTo limit = (.ok [], rest) := by
  unfold Incoming.readUpTo
  rw [h]
  cases inc.reset with
  | true => exact ⟨_, Or.inl rfl⟩
  | false => exact ⟨_, Or.inr rfl⟩

/-- Before the end, a read into a buffer with room takes some bytes off the front. -/
theorem readUpTo_more (hroom : ∀ seg, 0 < limit seg) (h : inc.segs ≠ []) :
    ∃ bytes rest, inc.readUpTo limit = (.ok bytes, rest) ∧ bytes = (pull limit inc.segs).1 ∧
      rest.segs = (pull limit inc.segs).2 ∧ bytes ≠ [] ∧ bytes ++ rest.bytes = inc.bytes ∧
      rest.reset = inc.reset := by
  have hsegs : inc.segs.isEmpty = false := by simpa using h
  refine ⟨_, { inc with segs := (pull limit inc.segs).2 }, ?_, rfl, rfl, pull_ne_nil hroom h,
    pull_pending limit inc.segs, rfl⟩
  unfold Incoming.readUpTo
  rw [hsegs, Bool.false_and]
  rfl

end Incoming

theorem vecLimit_pos {len : Nat} (h : 0 < len) (seg : Segment UInt8) : 0 < vecLimit len seg := by
  unfold vecLimit
  rw [if_neg (by omega)]
  omega

end Mahalo
