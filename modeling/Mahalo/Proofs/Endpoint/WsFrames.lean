/-
Which bytes are a frame.

`MaskedFrame` is the format of a client's frame: two bytes with the FIN bit, an opcode
and the mask bit, a length in one of three forms, a key and a masked payload.  The
parser takes exactly these, it refuses a buffer only if none of them can begin with it,
and it neither indexes outside of the buffer nor overflows on the way.  So frames that
are written back to back are read back one by one.
-/
import Mathlib.Data.List.Induction
import Mahalo.Proofs.Endpoint.WsParse

namespace Mahalo.WsParse

open Framing

/-! ### Bytes and slices -/

/-- A fact of every byte can be checked 256 times. -/
theorem forall_byte {P : UInt8 → Prop} (h : ∀ n : Fin 256, P (UInt8.ofNat n)) (b : UInt8) : P b := by
  have hb := h ⟨b.toNat, b.toNat_lt⟩
  rwa [UInt8.ofNat_toNat] at hb

theorem toBeBytes_length (width n : Nat) : (toBeBytes width n).length = width := by
  induction width generalizing n with
  | zero => rfl
  | succ width ih => rw [toBeBytes, List.length_append, ih]; rfl

theorem fromBeBytes_append (bs : List UInt8) (b : UInt8) :
    fromBeBytes (bs ++ [b]) = fromBeBytes bs * 256 + b.toNat := by
  unfold fromBeBytes
  rw [List.foldl_append, List.foldl_cons, List.foldl_nil]

theorem fromBeBytes_lt (bs : List UInt8) : fromBeBytes bs < 256 ^ bs.length := by
  induction bs using List.reverseRecOn with
  | nil => exact Nat.one_pos
  | append_singleton bs b ih =>
      have hb := b.toNat_lt
      rw [fromBeBytes_append, List.length_append, List.length_singleton, Nat.pow_succ]
      omega

theorem fromBeBytes_toBeBytes (width n : Nat) (h : n < 256 ^ width) :
    fromBeBytes (toBeBytes width n) = n := by
  induction width generalizing n with
  | zero => rw [Nat.pow_zero] at h; rw [show n = 0 by omega]; rfl
  | succ width ih =>
      rw [Nat.pow_succ] at h
      have hrec := ih (n / 256) (by omega)
      rw [toBeBytes, fromBeBytes_append, hrec, UInt8.toNat_ofNat']
      omega

theorem unmask_length (key payload : List UInt8) : (unmask key payload).length = payload.length :=
  List.length_mapIdx

/-- Masking twice with one key changes nothing. -/
theorem unmask_unmask (key payload : List UInt8) : unmask key (unmask key payload) = payload := by
  refine List.ext_getElem (by rw [unmask_length, unmask_length]) ?_
  intro i _ _
  simp only [unmask, List.getElem_mapIdx]
  rw [UInt8.xor_assoc, UInt8.xor_self, UInt8.xor_zero]

theorem slice_length {buf : List UInt8} {lo hi : Nat} (h : hi ≤ buf.length) :
    (slice buf lo hi).length = hi - lo := by
  unfold slice
  rw [List.length_drop, List.length_take_of_le h]

theorem slice_middle (a b c : List UInt8) :
    slice (a ++ b ++ c) a.length (a.length + b.length) = b := by
  unfold slice
  rw [← List.length_append, List.take_left, List.drop_left]

/-- Neighbouring slices are one slice. -/
theorem slice_append_slice {buf : List UInt8} {lo mid hi : Nat} (hlo : lo ≤ mid) (hmid : mid ≤ hi)
    (hhi : hi ≤ buf.length) : slice buf lo mid ++ slice buf mid hi = slice buf lo hi := by
  have hfront : buf.take mid = (buf.take hi).take mid := by rw [List.take_take, Nat.min_eq_left hmid]
  have hlength : lo ≤ ((buf.take hi).take mid).length := by
    rw [← hfront, List.length_take_of_le (by omega)]
    exact hlo
  unfold slice
  rw [hfront, ← List.drop_append_of_le_length hlength, List.take_append_drop]

theorem slice_two {buf : List UInt8} (h : 2 ≤ buf.length) : slice buf 0 2 = [buf.getD 0 0, buf.getD 1 0] := by
  match buf, h with
  | b0 :: b1 :: rest, _ => rfl

/-! ### The format -/

def opcodes : List UInt8 :=
  [opcodeContinuation, opcodeText, opcodeBinary, opcodeClose, opcodePing, opcodePong]

/-- The three forms of a payload's length: seven bits, and the bytes that they announce. -/
inductive LengthForm (len : Nat) : UInt8 → List UInt8 → Prop where
  | short (h : len ≤ 125) : LengthForm len (UInt8.ofNat len) []
  | medium (bytes : List UInt8) (hbytes : bytes.length = 2) (hvalue : fromBeBytes bytes = len) :
      LengthForm len 126 bytes
  | long (bytes : List UInt8) (hbytes : bytes.length = 8) (hvalue : fromBeBytes bytes = len)
      (htop : len < 2 ^ 63) : LengthForm len 127 bytes

/-- The bytes of a masked frame, and what they mean. -/
inductive MaskedFrame (frame : WsFrame) : List UInt8 → Prop where
  | mk (fin : Bool) (len7 : UInt8) (lengthBytes key : List UInt8) (hopcode : frame.opcode ∈ opcodes)
      (hcontrol : 8 ≤ frame.opcode → fin = true ∧ frame.payload.length ≤ 125)
      (hlength : LengthForm frame.payload.length len7 lengthBytes) (hkey : key.length = 4) :
      MaskedFrame frame (((if fin then 0x80 else 0) ||| frame.opcode) :: (0x80 ||| len7) ::
        (lengthBytes ++ (key ++ unmask key frame.payload)))

/-! ### The first two bytes -/

/-- A first byte without RSV bits is a FIN bit and an opcode. -/
theorem first_byte (b : UInt8) :
    b &&& 0x70 = 0 → b = (if b &&& 0x80 ≠ 0 then 0x80 else 0) ||| (b &&& 0x0F) :=
  forall_byte (P := fun b => b &&& 0x70 = 0 →
    b = (if b &&& 0x80 ≠ 0 then 0x80 else 0) ||| (b &&& 0x0F)) (by decide +kernel) b

theorem first_byte_parts (fin : Bool) {opcode : UInt8} (h : opcode ∈ opcodes) :
    (((if fin then 0x80 else 0) ||| opcode) &&& 0x70 = 0) ∧
      ((if fin then 0x80 else 0) ||| opcode) &&& 0x0F = opcode ∧
      (((if fin then 0x80 else 0) ||| opcode) &&& 0x80 ≠ 0 ↔ fin = true) := by
  have hall : ∀ fin : Bool, ∀ opcode ∈ opcodes, (((if fin then 0x80 else 0) ||| opcode) &&& 0x70 = 0) ∧
      ((if fin then 0x80 else 0) ||| opcode) &&& 0x0F = opcode ∧
      (((if fin then 0x80 else 0) ||| opcode) &&& 0x80 ≠ 0 ↔ fin = true) := by decide +kernel
  exact hall fin opcode h

/-- A second byte with the mask bit is the bit and seven others. -/
theorem second_byte (b : UInt8) : b &&& 0x80 ≠ 0 → b = 0x80 ||| (b &&& 0x7F) :=
  forall_byte (P := fun b => b &&& 0x80 ≠ 0 → b = 0x80 ||| (b &&& 0x7F)) (by decide +kernel) b

theorem second_byte_parts (len7 : UInt8) :
    len7 ≤ 127 → (0x80 ||| len7) &&& 0x80 ≠ 0 ∧ (0x80 ||| len7) &&& 0x7F = len7 :=
  forall_byte (P := fun len7 => len7 ≤ 127 →
    (0x80 ||| len7) &&& 0x80 ≠ 0 ∧ (0x80 ||| len7) &&& 0x7F = len7) (by decide +kernel) len7

theorem seven_bits (b : UInt8) : b &&& 0x7F ≤ 127 :=
  forall_byte (P := fun b => b &&& 0x7F ≤ 127) (by decide +kernel) b

/-- An opcode that is not reserved is one of the six. -/
theorem known_opcode (b : UInt8) :
    ¬((3 ≤ b &&& 0x0F ∧ b &&& 0x0F ≤ 7) ∨ (11 ≤ b &&& 0x0F ∧ b &&& 0x0F ≤ 15)) ↔
      b &&& 0x0F ∈ opcodes :=
  forall_byte (P := fun b => ¬((3 ≤ b &&& 0x0F ∧ b &&& 0x0F ≤ 7) ∨
    (11 ≤ b &&& 0x0F ∧ b &&& 0x0F ≤ 15)) ↔ b &&& 0x0F ∈ opcodes) (by decide +kernel) b

/-- What the checks on the first two bytes let through. -/
theorem checkHead_ok {b0 b1 : UInt8} : checkHead b0 b1 = .ok () ↔
    b0 &&& 0x70 = 0 ∧ (b0 &&& 0x0F ≥ 8 → b0 &&& 0x80 ≠ 0) ∧ b1 &&& 0x80 ≠ 0 ∧
      b0 &&& 0x0F ∈ opcodes := by
  rw [← known_opcode]
  unfold checkHead
  dsimp only
  by_cases hrsv : b0 &&& 0x70 ≠ 0
  · rw [if_pos hrsv]
    exact iff_of_false (fun h => by cases h) fun h => hrsv h.1
  rw [if_neg hrsv]
  by_cases hfin : b0 &&& 0x0F ≥ 8 ∧ ¬b0 &&& 0x80 ≠ 0
  · rw [if_pos hfin]
    exact iff_of_false (fun h => by cases h) fun h => hfin.2 (h.2.1 hfin.1)
  rw [if_neg hfin]
  by_cases hmask : ¬b1 &&& 0x80 ≠ 0
  · rw [if_pos hmask]
    exact iff_of_false (fun h => by cases h) fun h => hmask h.2.2.1
  rw [if_neg hmask]
  by_cases hreserved : (3 ≤ b0 &&& 0x0F ∧ b0 &&& 0x0F ≤ 7) ∨ (11 ≤ b0 &&& 0x0F ∧ b0 &&& 0x0F ≤ 15)
  · rw [if_pos hreserved]
    exact iff_of_false (fun h => by cases h) fun h => h.2.2.2 hreserved
  rw [if_neg hreserved]
  exact iff_of_true rfl ⟨not_not.mp hrsv, fun h => by_contra fun hclear => hfin ⟨h, hclear⟩,
    not_not.mp hmask, hreserved⟩

/-! ### The length -/

theorem third_form {len7 : UInt8} (h7 : len7 ≤ 127) (h125 : ¬len7 ≤ 125) (h126 : len7 ≠ 126) :
    len7 = 127 := by
  rw [UInt8.le_iff_toNat_le] at h7 h125
  rw [Ne, ← UInt8.toNat_inj] at h126
  rw [← UInt8.toNat_inj]
  change len7.toNat ≤ 127 at h7
  change ¬len7.toNat ≤ 125 at h125
  change ¬len7.toNat = 126 at h126
  show len7.toNat = 127
  omega

theorem LengthForm.seven {len : Nat} {len7 : UInt8} {lengthBytes : List UInt8}
    (h : LengthForm len len7 lengthBytes) : len7 ≤ 127 := by
  cases h with
  | short h =>
      rw [UInt8.le_iff_toNat_le, UInt8.toNat_ofNat']
      exact Nat.le_trans (Nat.mod_le _ _) (by show len ≤ 127; omega)
  | medium => decide
  | long => decide

theorem LengthForm.bounded {len : Nat} {len7 : UInt8} {lengthBytes : List UInt8}
    (h : LengthForm len len7 lengthBytes) : len < 2 ^ 63 ∧ lengthBytes.length ≤ 8 := by
  cases h with
  | short h => exact ⟨by omega, Nat.zero_le _⟩
  | medium bytes hbytes hvalue =>
      have hlt := fromBeBytes_lt lengthBytes
      rw [hvalue, hbytes] at hlt
      exact ⟨by omega, by omega⟩
  | long bytes hbytes _ htop => exact ⟨htop, by omega⟩

/-- The parser reads the length that is written. -/
theorem payloadLen_of_form {len : Nat} {len7 : UInt8} {lengthBytes : List UInt8}
    (h : LengthForm len len7 lengthBytes) (b0 b1 : UInt8) (rest : List UInt8) :
    payloadLen (b0 :: b1 :: (lengthBytes ++ rest)) len7
      = .ok (some (len, 2 + lengthBytes.length)) := by
  have hslice : slice (b0 :: b1 :: (lengthBytes ++ rest)) 2 (2 + lengthBytes.length) = lengthBytes :=
    slice_middle [b0, b1] lengthBytes rest
  have hlength : (b0 :: b1 :: (lengthBytes ++ rest)).length = 2 + lengthBytes.length + rest.length := by
    rw [List.length_cons, List.length_cons, List.length_append]
    omega
  unfold payloadLen
  cases h with
  | short h =>
      have hnat : (UInt8.ofNat len).toNat = len := by
        rw [UInt8.toNat_ofNat']
        omega
      rw [if_pos (UInt8.le_iff_toNat_le.mpr (by rw [hnat]; exact h)), hnat]
      rfl
  | medium bytes hbytes hvalue =>
      rw [hbytes] at hslice hlength
      rw [if_neg (by decide), if_pos rfl, if_neg (by omega), hslice, hvalue, hbytes]
  | long bytes hbytes hvalue htop =>
      rw [hbytes] at hslice hlength
      rw [if_neg (by decide), if_neg (by decide), if_neg (by omega), hslice, hvalue, hbytes]
      exact if_neg (by omega)

/-- And whatever length it reads is written in one of the forms. -/
theorem form_of_payloadLen {buf : List UInt8} {len7 : UInt8} {len off : Nat} (h7 : len7 ≤ 127)
    (htwo : 2 ≤ buf.length) (h : payloadLen buf len7 = .ok (some (len, off))) :
    2 ≤ off ∧ off ≤ buf.length ∧ LengthForm len len7 (slice buf 2 off) := by
  unfold payloadLen at h
  by_cases h125 : len7 ≤ 125
  · rw [if_pos h125] at h
    cases h
    have hempty : slice buf 2 2 = [] := List.length_eq_zero_iff.mp (slice_length htwo)
    have hform := LengthForm.short (UInt8.le_iff_toNat_le.mp h125)
    rw [UInt8.ofNat_toNat] at hform
    rw [hempty]
    exact ⟨Nat.le_refl 2, htwo, hform⟩
  rw [if_neg h125] at h
  by_cases h126 : len7 = 126
  · rw [if_pos h126] at h
    split at h
    · cases h
    · rename_i hlen
      cases h
      rw [h126]
      exact ⟨by omega, by omega, .medium _ (slice_length (by omega)) rfl⟩
  rw [if_neg h126] at h
  have h127 := third_form h7 h125 h126
  split at h
  · cases h
  · rename_i hlen
    dsimp only at h
    split at h
    · cases h
    · rename_i htop
      cases h
      rw [h127]
      exact ⟨by omega, by omega, .long _ (slice_length (by omega)) rfl (by omega)⟩

/-! ### The frame -/

theorem tryParseFrame_of_masked {frame : WsFrame} {bytes : List UInt8} (h : MaskedFrame frame bytes)
    (rest : List UInt8) : tryParseFrame (bytes ++ rest) = .ok (some (frame, bytes.length)) := by
  obtain ⟨fin, len7, lengthBytes, key, hopcode, hcontrol, hlength, hkey⟩ := h
  obtain ⟨hrsv, hop, hfin⟩ := first_byte_parts fin hopcode
  obtain ⟨hmask, hseven⟩ := second_byte_parts len7 hlength.seven
  generalize ((if fin then 0x80 else 0) ||| frame.opcode) = b0 at hrsv hop hfin ⊢
  generalize (0x80 ||| len7) = b1 at hmask hseven ⊢
  have hmasked := unmask_length key frame.payload
  have hshape : b0 :: b1 :: (lengthBytes ++ (key ++ unmask key frame.payload)) ++ rest
      = b0 :: b1 :: (lengthBytes ++ (key ++ (unmask key frame.payload ++ rest))) := by
    simp only [List.cons_append, List.append_assoc]
  have hsize : (b0 :: b1 :: (lengthBytes ++ (key ++ unmask key frame.payload))).length
      = 2 + lengthBytes.length + 4 + frame.payload.length := by
    simp only [List.length_cons, List.length_append, hmasked, hkey]
    omega
  have hkeySlice := slice_middle (b0 :: b1 :: lengthBytes) key (unmask key frame.payload ++ rest)
  have hdataSlice := slice_middle (b0 :: b1 :: lengthBytes ++ key) (unmask key frame.payload) rest
  have hfront : (b0 :: b1 :: lengthBytes).length = 2 + lengthBytes.length := by
    rw [List.length_cons, List.length_cons]
    omega
  rw [hfront, hkey] at hkeySlice
  rw [List.length_append, hfront, hkey, hmasked] at hdataSlice
  rw [hshape, hsize]
  simp only [List.cons_append, List.append_assoc] at hkeySlice hdataSlice
  refine tryParseFrame_some.mpr ⟨frame.payload.length, 2 + lengthBytes.length, ?_⟩
  constructor
  case two => rw [List.length_cons, List.length_cons]; omega
  case head =>
    refine checkHead_ok.mpr ⟨hrsv, fun hge => ?_, hmask, ?_⟩
    · rw [show List.getD _ 0 0 = b0 from rfl, hop] at hge
      exact hfin.mpr (hcontrol hge).1
    · rw [show List.getD _ 0 0 = b0 from rfl, hop]
      exact hopcode
  case lengths =>
    rw [show List.getD _ 1 0 = b1 from rfl, hseven]
    exact payloadLen_of_form hlength b0 b1 _
  case control =>
    rw [show List.getD _ 0 0 = b0 from rfl, hop]
    rintro ⟨hge, hbig⟩
    have := (hcontrol hge).2
    omega
  case sizeEq => rfl
  case whole =>
    simp only [List.length_cons, List.length_append, hmasked, hkey]
    omega
  case frameEq =>
    rw [show List.getD _ 0 0 = b0 from rfl, hop, hkeySlice, hdataSlice, unmask_unmask]

theorem masked_of_tryParseFrame {buf : List UInt8} {frame : WsFrame} {n : Nat}
    (h : tryParseFrame buf = .ok (some (frame, n))) : MaskedFrame frame (buf.take n) := by
  obtain ⟨len, off, hf⟩ := tryParseFrame_some.mp h
  obtain ⟨htwo, hhead, hlengths, hcontrol, hsize, hwhole, hframe⟩ := hf
  obtain ⟨hrsv, hfin, hmask, hopcode⟩ := checkHead_ok.mp hhead
  obtain ⟨hoff, hoffLe, hform⟩ := form_of_payloadLen (seven_bits _) htwo hlengths
  have hdata : (slice buf (off + 4) n).length = len := by
    rw [slice_length hwhole]
    omega
  have htake : buf.take n = buf.getD 0 0 :: buf.getD 1 0 ::
      (slice buf 2 off ++ (slice buf off (off + 4) ++ slice buf (off + 4) n)) := by
    rw [slice_append_slice (by omega) (by omega) hwhole, slice_append_slice (by omega) (by omega) hwhole]
    have hfront : slice buf 0 2 ++ slice buf 2 n = slice buf 0 n :=
      slice_append_slice (Nat.zero_le 2) (by omega) hwhole
    rw [slice_two htwo] at hfront
    exact hfront.symm
  have hmasked := @MaskedFrame.mk frame (decide (buf.getD 0 0 &&& 0x80 ≠ 0)) (buf.getD 1 0 &&& 0x7F)
    (slice buf 2 off) (slice buf off (off + 4))
  rw [hframe] at hmasked ⊢
  rw [htake]
  dsimp only at hmasked
  rw [unmask_unmask, unmask_length, hdata, ← second_byte _ hmask] at hmasked
  simp only [decide_eq_true_eq] at hmasked
  rw [← first_byte _ hrsv] at hmasked
  refine hmasked hopcode (fun hge => ⟨hfin hge, ?_⟩) hform ?_
  · by_contra hbig
    exact hcontrol ⟨hge, by omega⟩
  · rw [slice_length (by omega)]
    omega

/-- **The parser takes exactly the masked frames.** -/
theorem tryParseFrame_iff {buf : List UInt8} {frame : WsFrame} {n : Nat} :
    tryParseFrame buf = .ok (some (frame, n)) ↔ n ≤ buf.length ∧ MaskedFrame frame (buf.take n) := by
  constructor
  · intro h
    exact ⟨(tryParseFrame_stable.consumes h).2, masked_of_tryParseFrame h⟩
  · rintro ⟨hn, hmasked⟩
    have hparse := tryParseFrame_of_masked hmasked (buf.drop n)
    rwa [List.take_append_drop, List.length_take_of_le hn] at hparse

/-! ### Panics -/

theorem mapM_eq_map {X Y : Type} {f : X → Option Y} {g : X → Y} {xs : List X}
    (h : ∀ x ∈ xs, f x = some (g x)) : xs.mapM f = some (xs.map g) := by
  induction xs with
  | nil => rfl
  | cons x rest ih =>
      rw [List.mapM_cons, h x (List.mem_cons_self ..), ih fun y hy => h y (List.mem_cons_of_mem _ hy)]
      rfl

theorem indexEach_eq {buf : List UInt8} {lo n : Nat} (h : lo + n ≤ buf.length) :
    indexEach buf lo n = some (slice buf lo (lo + n)) := by
  have hbytes : (List.range' lo n).map (fun i => buf.getD i 0) = slice buf lo (lo + n) := by
    refine List.ext_getElem ?_ ?_
    · rw [List.length_map, List.length_range', slice_length h]
      omega
    · intro i hi _
      rw [List.length_map, List.length_range'] at hi
      have hlt : lo + i < buf.length := by omega
      simp [slice, hlt]
  unfold indexEach
  rw [← hbytes]
  refine mapM_eq_map fun i hi => ?_
  rw [List.mem_range'_1] at hi
  rw [List.getD_eq_getElem?_getD, List.getElem?_eq_getElem (by omega)]
  rfl

theorem unmaskChecked_eq {maskKey : List UInt8} (h : maskKey.length = 4) (payload : List UInt8) :
    unmaskChecked maskKey payload = some (unmask maskKey payload) := by
  unfold unmaskChecked unmask
  rw [List.mapIdx_eq_zipIdx_map]
  refine mapM_eq_map fun x _ => ?_
  have hindex : x.2 &&& 3 = x.2 % 4 := Nat.and_two_pow_sub_one_eq_mod x.2 2
  have hlt : x.2 % 4 < maskKey.length := by omega
  show Option.map _ _ = some (x.1 ^^^ maskKey.getD (x.2 % 4) 0)
  rw [hindex, List.getD_eq_getElem?_getD, List.getElem?_eq_getElem hlt]
  rfl

theorem payloadLenChecked_eq {len7 : UInt8} (h7 : len7 ≤ 127) (buf : List UInt8) :
    payloadLenChecked buf len7 = some (payloadLen buf len7) := by
  unfold payloadLenChecked payloadLen
  by_cases h125 : len7 ≤ 125
  · rw [if_pos h125, if_pos h125]
  rw [if_neg h125, if_neg h125]
  by_cases h126 : len7 = 126
  · rw [if_pos h126, if_pos h126]
    by_cases hlen : buf.length < 4
    · rw [if_pos hlen, if_pos hlen]
    · rw [if_neg hlen, if_neg hlen, indexEach_eq (by omega)]
      rfl
  rw [if_neg h126, if_neg h126, if_pos (third_form h7 h125 h126)]
  by_cases hlen : buf.length < 10
  · rw [if_pos hlen, if_pos hlen]
  · rw [if_neg hlen, if_neg hlen, indexEach_eq (by omega)]
    rfl

/-- **No run of the parser panics**, and the panics are all that the two parsers differ in. -/
theorem tryParseFrameChecked_eq (buf : List UInt8) :
    tryParseFrameChecked buf = some (tryParseFrame buf) := by
  unfold tryParseFrameChecked tryParseFrame
  by_cases htwo : buf.length < 2
  · rw [if_pos htwo, if_pos htwo]
  rw [if_neg htwo, if_neg htwo]
  have hget : ∀ i < buf.length, buf[i]? = some (buf.getD i 0) := by
    intro i hi
    rw [List.getD_eq_getElem?_getD, List.getElem?_eq_getElem hi]
    rfl
  rw [hget 0 (by omega), hget 1 (by omega)]
  dsimp only [Option.bind_eq_bind, Option.bind_some]
  cases hhead : checkHead (buf.getD 0 0) (buf.getD 1 0) with
  | error e => rfl
  | ok u =>
      dsimp only
      rw [payloadLenChecked_eq (seven_bits _), Option.bind_some]
      cases hlengths : payloadLen buf (buf.getD 1 0 &&& 0x7F) with
      | error e => rfl
      | ok found =>
          rcases found with _ | ⟨len, off⟩
          · rfl
          obtain ⟨hoff, hoffLe, hform⟩ := form_of_payloadLen (seven_bits _) (by omega) hlengths
          obtain ⟨hlen, hbytes⟩ := hform.bounded
          rw [slice_length hoffLe] at hbytes
          dsimp only
          by_cases hcontrol : buf.getD 0 0 &&& 0x0F ≥ 8 ∧ len > 125
          · rw [if_pos hcontrol, if_pos hcontrol]
            rfl
          rw [if_neg hcontrol, if_neg hcontrol]
          have hdata : addChecked off 4 = some (off + 4) := if_pos (by omega)
          have htotal : addChecked (off + 4) len = some (off + 4 + len) := if_pos (by omega)
          rw [hdata, Option.bind_some, htotal, Option.bind_some]
          by_cases hshort : buf.length < off + 4 + len
          · rw [if_pos hshort, if_pos hshort]
            rfl
          rw [if_neg hshort, if_neg hshort]
          have hkey : sliceChecked buf off (off + 4) = some (slice buf off (off + 4)) :=
            if_pos ⟨by omega, by omega⟩
          have hpayload : sliceChecked buf (off + 4) (off + 4 + len)
              = some (slice buf (off + 4) (off + 4 + len)) := if_pos ⟨by omega, by omega⟩
          rw [Option.bind_some, hkey, Option.bind_some, hpayload, Option.bind_some,
            unmaskChecked_eq (by rw [slice_length (by omega)]; omega)]
          rfl

/-! ### Frames back to back -/

/-- A frame as `build_masked_frame` can build it: an opcode, a payload that fits it, and a key. -/
structure Unsent where
  frame : WsFrame
  key : List UInt8
  known : frame.opcode ∈ opcodes
  control : 8 ≤ frame.opcode → frame.payload.length ≤ 125
  sized : frame.payload.length < 2 ^ 63
  keyed : key.length = 4

def Unsent.bytes (f : Unsent) : List UInt8 := buildMaskedFrame f.frame.opcode f.frame.payload f.key

theorem Unsent.masked (f : Unsent) : MaskedFrame f.frame f.bytes := by
  have hcontrol : 8 ≤ f.frame.opcode → true = true ∧ f.frame.payload.length ≤ 125 :=
    fun hge => ⟨rfl, f.control hge⟩
  have hsized := f.sized
  unfold Unsent.bytes buildMaskedFrame
  dsimp only
  by_cases h125 : f.frame.payload.length ≤ 125
  · rw [if_pos h125]
    have hmasked := MaskedFrame.mk true _ [] f.key f.known hcontrol (.short h125) f.keyed
    rw [List.append_assoc]
    exact hmasked
  rw [if_neg h125]
  by_cases h64k : f.frame.payload.length ≤ 65535
  · rw [if_pos h64k]
    have hmasked := MaskedFrame.mk true _ _ f.key f.known hcontrol
      (.medium (toBeBytes 2 f.frame.payload.length) (toBeBytes_length ..)
        (fromBeBytes_toBeBytes 2 _ (by omega))) f.keyed
    rw [List.append_assoc]
    exact hmasked
  · rw [if_neg h64k]
    have hmasked := MaskedFrame.mk true _ _ f.key f.known hcontrol
      (.long (toBeBytes 8 f.frame.payload.length) (toBeBytes_length ..)
        (fromBeBytes_toBeBytes 8 _ (by omega)) f.sized) f.keyed
    rw [List.append_assoc]
    exact hmasked

theorem Unsent.parsed (f : Unsent) : tryParseFrame f.bytes = .ok (some (f.frame, f.bytes.length)) := by
  have hparse := tryParseFrame_of_masked f.masked []
  rwa [List.append_nil] at hparse

/-- Parse one frame, drop its bytes, and so on to the end. -/
def collect : Handler (List WsFrame) WsError WsFrame WsError where
  onFrame frames frame := (frames ++ [frame], none)
  onError frames e := (frames, e)

theorem drain_collect (fs : List Unsent) : ∀ frames,
    drain tryParseFrame collect frames (fs.flatMap Unsent.bytes)
      = .more (frames ++ fs.map fun f => f.frame) [] := by
  induction fs with
  | nil => intro frames; rw [List.flatMap_nil, drain_nil, List.map_nil, List.append_nil]
  | cons f rest ih =>
      intro frames
      have hparse := tryParseFrame_of_masked f.masked (rest.flatMap Unsent.bytes)
      rw [List.flatMap_cons, drain_frame tryParseFrame_stable hparse rfl, List.drop_left, ih,
        List.append_assoc]
      rfl

/-- What is to be said of the parser on a buffer. -/
structure ParsesExactly (buf : List UInt8) : Prop where
  exact : ∀ frame n, tryParseFrame buf = .ok (some (frame, n)) ↔
    n ≤ buf.length ∧ MaskedFrame frame (buf.take n)
  /-- an error is final: nothing that begins with the buffer begins with a frame -/
  refused : ∀ e, tryParseFrame buf = .error e → ∀ ext frame n, n ≤ (buf ++ ext).length →
    ¬MaskedFrame frame ((buf ++ ext).take n)
  frameStays : ∀ frame n, tryParseFrame buf = .ok (some (frame, n)) → ∀ ext,
    tryParseFrame (buf ++ ext) = .ok (some (frame, n))
  errorStays : ∀ e, tryParseFrame buf = .error e → ∀ ext, tryParseFrame (buf ++ ext) = .error e
  /-- no index is out of bounds and no sum overflows -/
  noPanic : tryParseFrameChecked buf = some (tryParseFrame buf)

/--
**The frame parser accepts exactly masked client frames**, in any buffer, and whatever
is built with `build_masked_frame` and written back to back is decoded frame by frame.
-/
theorem parses_exactly (buf : List UInt8) (sent : List Unsent) :
    ParsesExactly buf ∧ drain tryParseFrame collect [] (sent.flatMap Unsent.bytes)
      = .more (sent.map fun f => f.frame) [] := by
  refine ⟨?_, drain_collect sent []⟩
  constructor
  case exact => exact fun frame n => tryParseFrame_iff
  case refused =>
    intro e he ext frame n hn hmasked
    have hframe := tryParseFrame_iff.mpr ⟨hn, hmasked⟩
    rw [tryParseFrame_error_append ext he] at hframe
    cases hframe
  case frameStays => exact fun frame n h ext => tryParseFrame_some_append ext h
  case errorStays => exact fun e h ext => tryParseFrame_error_append ext h
  case noPanic => exact tryParseFrameChecked_eq buf

end Mahalo.WsParse
