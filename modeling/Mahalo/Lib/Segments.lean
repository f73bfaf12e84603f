/-
A byte stream as a reader meets it: in pieces.

A segment is what has arrived when a read is issued.  A read takes a prefix of
the segment in front, as long as its buffer allows, and whatever it leaves stays
in front for the next read.  Any way of cutting a stream into reads that fit
their buffers is a list of segments, so a statement for every list of segments is
a statement for every cut.

`spare` is how much further than its length a growable buffer's allocation lets a
read go.  Runtimes differ here, so it is left to the environment.
-/
import Mathlib.Data.List.Basic

namespace Segments

variable {B : Type*}

/-- The bytes one read can find waiting. -/
structure Segment (B : Type*) where
  bytes : List B
  spare : Nat
  nonempty : bytes ≠ []

/-- Everything that has not been read yet. -/
def pending (segs : List (Segment B)) : List B := segs.flatMap (·.bytes)

@[simp] theorem pending_nil : pending ([] : List (Segment B)) = [] := rfl

@[simp] theorem pending_cons (seg : Segment B) (rest : List (Segment B)) :
    pending (seg :: rest) = seg.bytes ++ pending rest := rfl

theorem pending_eq_nil {segs : List (Segment B)} : pending segs = [] ↔ segs = [] := by
  cases segs with
  | nil => simp
  | cons seg rest => simp [seg.nonempty]

/-- One read that may take `limit` elements of the segment in front: what it got, and what is left. -/
def pull (limit : Segment B → Nat) : List (Segment B) → List B × List (Segment B)
  | [] => ([], [])
  | seg :: rest =>
      if h : limit seg < seg.bytes.length then
        (seg.bytes.take (limit seg),
          { seg with
            bytes := seg.bytes.drop (limit seg)
            nonempty := by simpa [List.drop_eq_nil_iff] using h } :: rest)
      else (seg.bytes, rest)

variable {limit : Segment B → Nat} {segs : List (Segment B)}

@[simp] theorem pull_nil : pull limit ([] : List (Segment B)) = ([], []) := rfl

/-- A segment that fits the buffer is read whole. -/
theorem pull_whole {seg : Segment B} {rest : List (Segment B)}
    (h : seg.bytes.length ≤ limit seg) : pull limit (seg :: rest) = (seg.bytes, rest) :=
  dif_neg (Nat.not_lt.mpr h)

/-- Of a longer one the read takes as much as the buffer allows. -/
theorem pull_part {seg : Segment B} {rest : List (Segment B)} (h : limit seg < seg.bytes.length) :
    (pull limit (seg :: rest)).1 = seg.bytes.take (limit seg) ∧
      pending (pull limit (seg :: rest)).2 = seg.bytes.drop (limit seg) ++ pending rest := by
  have hpull : pull limit (seg :: rest) = (seg.bytes.take (limit seg),
      { seg with
        bytes := seg.bytes.drop (limit seg)
        nonempty := by simpa [List.drop_eq_nil_iff] using h } :: rest) := dif_pos h
  rw [hpull]
  exact ⟨rfl, rfl⟩

/-- A read loses, repeats and reorders nothing. -/
theorem pull_pending (limit : Segment B → Nat) (segs : List (Segment B)) :
    (pull limit segs).1 ++ pending (pull limit segs).2 = pending segs := by
  cases segs with
  | nil => rfl
  | cons seg rest =>
      rcases Nat.lt_or_ge (limit seg) seg.bytes.length with hlt | hge
      · obtain ⟨hgot, hleft⟩ := @pull_part _ _ _ rest hlt
        rw [hgot, hleft, ← List.append_assoc, List.take_append_drop, pending_cons]
      · rw [pull_whole hge, pending_cons]

/-- A read into a buffer with room gets something unless the stream is over. -/
theorem pull_ne_nil (hroom : ∀ seg, 0 < limit seg) (hsegs : segs ≠ []) :
    (pull limit segs).1 ≠ [] := by
  cases segs with
  | nil => exact absurd rfl hsegs
  | cons seg rest =>
      rcases Nat.lt_or_ge (limit seg) seg.bytes.length with hlt | hge
      · rw [(pull_part hlt).1]
        intro hnil
        rcases List.take_eq_nil_iff.mp hnil with hzero | hbytes
        · exact absurd hzero (Nat.ne_of_gt (hroom seg))
        · exact seg.nonempty hbytes
      · rw [pull_whole hge]
        exact seg.nonempty

/-- Nothing is left after a read of the last segment that gets it whole. -/
theorem pull_rest_eq_nil (limit : Segment B → Nat) (hsegs : segs ≠ []) :
    (pull limit segs).2 = [] ↔ ∃ seg, segs = [seg] ∧ seg.bytes.length ≤ limit seg := by
  cases segs with
  | nil => exact absurd rfl hsegs
  | cons seg rest =>
      rcases Nat.lt_or_ge (limit seg) seg.bytes.length with hlt | hge
      · constructor
        · intro h
          have hpending := (@pull_part _ _ _ rest hlt).2
          rw [h, pending_nil] at hpending
          have hdrop := (List.append_eq_nil_iff.mp hpending.symm).1
          rw [List.drop_eq_nil_iff] at hdrop
          omega
        · rintro ⟨seg', heq, hle⟩
          cases heq
          omega
      · rw [pull_whole hge]
        constructor
        · rintro rfl
          exact ⟨seg, rfl, hge⟩
        · rintro ⟨seg', heq, -⟩
          cases heq
          rfl

/-- A read never gets more than its buffer allows. -/
theorem pull_length_le {n : Nat} (hlimit : ∀ seg, limit seg ≤ n) :
    (pull limit segs).1.length ≤ n := by
  cases segs with
  | nil => exact Nat.zero_le n
  | cons seg rest =>
      rcases Nat.lt_or_ge (limit seg) seg.bytes.length with hlt | hge
      · rw [(pull_part hlt).1]
        exact Nat.le_trans (List.length_take_le _ _) (hlimit seg)
      · rw [pull_whole hge]
        exact Nat.le_trans hge (hlimit seg)

/-- What is left keeps the spare capacities. -/
theorem pull_spare {P : Nat → Prop} (h : ∀ seg ∈ segs, P seg.spare) :
    ∀ seg ∈ (pull limit segs).2, P seg.spare := by
  cases segs with
  | nil => intro seg hseg; cases hseg
  | cons seg rest =>
      rw [List.forall_mem_cons] at h
      unfold pull
      dsimp only
      by_cases hlt : limit seg < seg.bytes.length
      · rw [dif_pos hlt]
        exact List.forall_mem_cons.mpr h
      · rw [dif_neg hlt]
        exact h.2

end Segments
