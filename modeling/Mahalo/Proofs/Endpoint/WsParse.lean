/-
What `try_parse_frame` decides, and that more bytes do not change it.

The parser reads the head, then the length bytes the head asks for, then waits
for the whole frame.  Each of the three looks only at a prefix it has checked to
be there, so a frame or an error found in a buffer is found in every extension of
it.  That makes the parser stable in the sense of `Lib/Framing.lean`, and the
reader's proofs need nothing else about the wire format.
-/
import Mahalo.Endpoint.WsParse
import Mahalo.Lib.Framing

namespace Mahalo.WsParse

theorem slice_append {buf : List UInt8} {lo hi : Nat} (ext : List UInt8) (h : hi ≤ buf.length) :
    slice (buf ++ ext) lo hi = slice buf lo hi := by
  unfold slice
  rw [List.take_append_of_le_length h]

theorem getD_append {buf : List UInt8} {i : Nat} (ext : List UInt8) (h : i < buf.length) :
    (buf ++ ext).getD i 0 = buf.getD i 0 := by
  rw [List.getD_eq_getElem?_getD, List.getD_eq_getElem?_getD, List.getElem?_append_left h]

/-! ### The length bytes -/

theorem payloadLen_some {buf : List UInt8} {len7 : UInt8} {len off : Nat}
    (h : payloadLen buf len7 = .ok (some (len, off))) (ext : List UInt8) :
    payloadLen (buf ++ ext) len7 = .ok (some (len, off)) := by
  unfold payloadLen at h ⊢
  by_cases h125 : len7 ≤ 125
  · rw [if_pos h125] at h ⊢; exact h
  · rw [if_neg h125] at h ⊢
    by_cases h126 : len7 = 126
    · rw [if_pos h126] at h ⊢
      by_cases hlen : buf.length < 4
      · rw [if_pos hlen] at h; cases h
      · rw [if_neg hlen] at h
        rw [if_neg (by rw [List.length_append]; omega), slice_append ext (by omega)]
        exact h
    · rw [if_neg h126] at h ⊢
      by_cases hlen : buf.length < 10
      · rw [if_pos hlen] at h; cases h
      · rw [if_neg hlen] at h
        rw [if_neg (by rw [List.length_append]; omega), slice_append ext (by omega)]
        exact h

theorem payloadLen_error {buf : List UInt8} {len7 : UInt8} {e : WsError}
    (h : payloadLen buf len7 = .error e) (ext : List UInt8) :
    payloadLen (buf ++ ext) len7 = .error e := by
  unfold payloadLen at h ⊢
  by_cases h125 : len7 ≤ 125
  · rw [if_pos h125] at h; cases h
  · rw [if_neg h125] at h ⊢
    by_cases h126 : len7 = 126
    · rw [if_pos h126] at h
      split at h <;> cases h
    · rw [if_neg h126] at h ⊢
      by_cases hlen : buf.length < 10
      · rw [if_pos hlen] at h; cases h
      · rw [if_neg hlen] at h
        rw [if_neg (by rw [List.length_append]; omega), slice_append ext (by omega)]
        exact h

theorem payloadLen_none {buf : List UInt8} {len7 : UInt8}
    (h : payloadLen buf len7 = .ok none) : buf.length < 10 := by
  unfold payloadLen at h
  split at h
  · cases h
  · split at h
    · split at h
      · omega
      · cases h
    · split at h
      · assumption
      · dsimp only at h
        split at h <;> cases h

/-! ### The frame -/

/-- The head, the declared length and the rest of a frame, as the parser reads them. -/
structure IsFrame (buf : List UInt8) (frame : WsFrame) (size len off : Nat) : Prop where
  two : 2 ≤ buf.length
  head : checkHead (buf.getD 0 0) (buf.getD 1 0) = .ok ()
  lengths : payloadLen buf (buf.getD 1 0 &&& 0x7F) = .ok (some (len, off))
  control : ¬(buf.getD 0 0 &&& 0x0F ≥ 8 ∧ len > 125)
  sizeEq : size = off + 4 + len
  whole : size ≤ buf.length
  frameEq : frame = {
    opcode := buf.getD 0 0 &&& 0x0F
    payload := unmask (slice buf off (off + 4)) (slice buf (off + 4) size) }

theorem tryParseFrame_some {buf : List UInt8} {frame : WsFrame} {size : Nat} :
    tryParseFrame buf = .ok (some (frame, size)) ↔ ∃ len off, IsFrame buf frame size len off := by
  constructor
  · intro h
    unfold tryParseFrame at h
    split at h
    · cases h
    · rename_i htwo
      dsimp only at h
      split at h
      · cases h
      · rename_i hhead
        split at h
        · cases h
        · cases h
        · rename_i len off hlen
          split at h
          · cases h
          · rename_i hctl
            split at h
            · cases h
            · rename_i hwhole
              simp only [Except.ok.injEq, Option.some.injEq, Prod.mk.injEq] at h
              obtain ⟨hframe, hsize⟩ := h
              exact ⟨len, off, by omega, hhead, hlen, hctl, hsize.symm, by omega,
                by rw [← hframe, ← hsize]⟩
  · rintro ⟨len, off, h⟩
    obtain ⟨htwo, hhead, hlen, hctl, rfl, hwhole, rfl⟩ := h
    unfold tryParseFrame
    rw [if_neg (by omega)]
    simp only [hhead, hlen]
    rw [if_neg hctl, if_neg (by omega)]

theorem tryParseFrame_some_append {buf : List UInt8} {frame : WsFrame} {size : Nat}
    (ext : List UInt8) (h : tryParseFrame buf = .ok (some (frame, size))) :
    tryParseFrame (buf ++ ext) = .ok (some (frame, size)) := by
  obtain ⟨len, off, hf⟩ := tryParseFrame_some.mp h
  obtain ⟨htwo, hhead, hlen, hctl, hsize, hwhole, hframe⟩ := hf
  have h0 : (buf ++ ext).getD 0 0 = buf.getD 0 0 := getD_append ext (by omega)
  have h1 : (buf ++ ext).getD 1 0 = buf.getD 1 0 := getD_append ext (by omega)
  refine tryParseFrame_some.mpr ⟨len, off, ?_, ?_, ?_, ?_, hsize, ?_, ?_⟩
  · rw [List.length_append]; omega
  · rw [h0, h1]; exact hhead
  · rw [h1]; exact payloadLen_some hlen ext
  · rw [h0]; exact hctl
  · rw [List.length_append]; omega
  · rw [h0, slice_append ext (by omega), slice_append ext hwhole]; exact hframe

theorem tryParseFrame_error_append {buf : List UInt8} {e : WsError}
    (ext : List UInt8) (h : tryParseFrame buf = .error e) :
    tryParseFrame (buf ++ ext) = .error e := by
  unfold tryParseFrame at h ⊢
  by_cases htwo : buf.length < 2
  · rw [if_pos htwo] at h; cases h
  rw [if_neg htwo] at h
  rw [if_neg (by rw [List.length_append]; omega)]
  have h0 : (buf ++ ext).getD 0 0 = buf.getD 0 0 := getD_append ext (by omega)
  have h1 : (buf ++ ext).getD 1 0 = buf.getD 1 0 := getD_append ext (by omega)
  simp only [h0, h1]
  cases hhead : checkHead (buf.getD 0 0) (buf.getD 1 0) with
  | error e' => simp only [hhead] at h ⊢; exact h
  | ok u =>
      simp only [hhead] at h ⊢
      cases hlen : payloadLen buf (buf.getD 1 0 &&& 0x7F) with
      | error e' =>
          simp only [hlen] at h
          simp only [payloadLen_error hlen ext]
          exact h
      | ok o =>
          rcases o with _ | ⟨len, off⟩
          · simp only [hlen] at h; cases h
          · simp only [hlen] at h
            simp only [payloadLen_some hlen ext]
            split at h
            · rename_i hctl
              rw [if_pos hctl]; exact h
            · split at h <;> cases h

/-- The parser never takes back a frame or an error. -/
theorem tryParseFrame_stable : Framing.Stable tryParseFrame where
  consumes := by
    intro buf frame size h
    obtain ⟨len, off, hf⟩ := tryParseFrame_some.mp h
    have := hf.sizeEq
    exact ⟨by omega, hf.whole⟩
  some_append := tryParseFrame_some_append
  error_append := tryParseFrame_error_append

/-! ### How much a buffer without a whole frame can hold -/

/-- The encoded size of the frame a buffer starts with, once its head is there and sound. -/
def declaredSize (buf : List UInt8) : Option Nat :=
  if buf.length < 2 then none
  else match checkHead (buf.getD 0 0) (buf.getD 1 0),
      payloadLen buf (buf.getD 1 0 &&& 0x7F) with
    | .ok (), .ok (some (len, off)) =>
        if buf.getD 0 0 &&& 0x0F ≥ 8 ∧ len > 125 then none else some (off + 4 + len)
    | _, _ => none

theorem declaredSize_append {buf : List UInt8} {size : Nat} (h : declaredSize buf = some size)
    (ext : List UInt8) : declaredSize (buf ++ ext) = some size := by
  unfold declaredSize at h ⊢
  split at h
  · cases h
  · rename_i htwo
    rw [if_neg (by rw [List.length_append]; omega)]
    rw [getD_append (i := 0) ext (by omega), getD_append (i := 1) ext (by omega)]
    split at h
    · rename_i len off hhead hlen
      rw [hhead, payloadLen_some hlen ext]
      exact h
    · cases h

/-- An incomplete frame is shorter than the size it declares, or than a header. -/
theorem tryParseFrame_none {buf : List UInt8} (h : tryParseFrame buf = .ok none) :
    buf.length < 10 ∨ ∃ size, declaredSize buf = some size ∧ buf.length < size := by
  unfold tryParseFrame at h
  split at h
  · exact Or.inl (by omega)
  · rename_i htwo
    dsimp only at h
    split at h
    · cases h
    · rename_i hhead
      split at h
      · cases h
      · rename_i hlen
        exact Or.inl (payloadLen_none hlen)
      · rename_i len off hlen
        split at h
        · cases h
        · rename_i hctl
          split at h
          · rename_i hshort
            refine Or.inr ⟨off + 4 + len, ?_, hshort⟩
            unfold declaredSize
            rw [if_neg htwo, hhead, hlen]
            exact if_neg hctl
          · cases h

/-- A complete frame has the size it declares. -/
theorem declaredSize_of_some {buf : List UInt8} {frame : WsFrame} {size : Nat}
    (h : tryParseFrame buf = .ok (some (frame, size))) : declaredSize buf = some size := by
  obtain ⟨len, off, htwo, hhead, hlen, hctl, hsize, -, -⟩ := tryParseFrame_some.mp h
  unfold declaredSize
  rw [if_neg (by omega), hhead, hlen, hsize]
  exact if_neg hctl

theorem declaredSize_of_error {buf : List UInt8} {e : WsError} (h : tryParseFrame buf = .error e) :
    declaredSize buf = none := by
  unfold tryParseFrame at h
  split at h
  · cases h
  · rename_i htwo
    unfold declaredSize
    rw [if_neg htwo]
    dsimp only at h
    split at h
    · rename_i hhead
      rw [hhead]
    · rename_i hhead
      split at h
      · rename_i hlen
        rw [hhead, hlen]
      · cases h
      · rename_i len off hlen
        split at h
        · rename_i hctl
          rw [hhead, hlen]
          exact if_pos hctl
        · split at h <;> cases h

/-- A frame is waited for as long as it is shorter than the size it declares. -/
theorem tryParseFrame_short {buf ext : List UInt8} {size : Nat}
    (h : declaredSize (buf ++ ext) = some size) (hshort : buf.length < size) :
    tryParseFrame buf = .ok none := by
  cases hp : tryParseFrame buf with
  | error e =>
      rw [declaredSize_of_error (tryParseFrame_error_append ext hp)] at h
      cases h
  | ok found =>
      rcases found with _ | ⟨frame, n⟩
      · rfl
      · rw [declaredSize_of_some (tryParseFrame_some_append ext hp)] at h
        cases h
        have := (tryParseFrame_stable.consumes hp).2
        omega

end Mahalo.WsParse
