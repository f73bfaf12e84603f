/-
What the server writes is read back.

`readFrame` is a client's reader: it takes a frame's fields apart, wants the mask bit
clear and the length in the shortest of its three forms, and leaves what is behind the
payload.  It reads every frame that `serialize_frame` has appended to a buffer, one after
the other.  A reply to a control frame is small enough to be one, since the parser has
let no larger control frame through, and the code and the reason of a CLOSE that was
taken apart are put together again as they were.
-/
import Mahalo.Endpoint.WsStreaming
import Mahalo.Proofs.Endpoint.WsFrames

namespace Mahalo.WsParse

/-! ### The client's reader -/

/-- The fields of a frame that is not masked. -/
structure ServerFrame where
  fin : Bool
  rsv : UInt8
  opcode : UInt8
  payload : List UInt8
  deriving DecidableEq, Repr

/-- The payload length, in the shortest form, and the bytes behind it. -/
def readLength (len7 : UInt8) (bs : List UInt8) : Option (Nat × List UInt8) :=
  if len7 ≤ 125 then some (len7.toNat, bs)
  else if len7 = 126 then
    if bs.length < 2 ∨ fromBeBytes (bs.take 2) ≤ 125 then none
    else some (fromBeBytes (bs.take 2), bs.drop 2)
  else
    if bs.length < 8 ∨ fromBeBytes (bs.take 8) ≤ 65535 ∨ 2 ^ 63 ≤ fromBeBytes (bs.take 8) then none
    else some (fromBeBytes (bs.take 8), bs.drop 8)

/-- A frame without a mask, and the bytes behind it. -/
def readFrame : List UInt8 → Option (ServerFrame × List UInt8)
  | b0 :: b1 :: bs =>
      if b1 &&& 0x80 ≠ 0 then none
      else (readLength (b1 &&& 0x7F) bs).bind fun (len, bs) =>
        if bs.length < len then none
        else some ({
          fin := b0 &&& 0x80 ≠ 0, rsv := b0 &&& 0x70, opcode := b0 &&& 0x0F, payload := bs.take len },
          bs.drop len)
  | _ => none

/-- As many frames as there are, and the bytes behind them.  A frame has two bytes at least. -/
def readFrames : Nat → List UInt8 → List ServerFrame × List UInt8
  | 0, bs => ([], bs)
  | fuel + 1, bs =>
      match readFrame bs with
      | some (frame, rest) => (frame :: (readFrames fuel rest).1, (readFrames fuel rest).2)
      | none => ([], bs)

/-- What `serialize_frame` is given, as the client should see it. -/
def sent (frame : UInt8 × List UInt8) : ServerFrame :=
  { fin := true, rsv := 0, opcode := frame.1, payload := frame.2 }

/-- Calls of `serialize_frame` on one buffer. -/
def serializeEach (buf : List UInt8) (frames : List (UInt8 × List UInt8)) : List UInt8 :=
  frames.foldl (fun buf frame => buf ++ serializeFrame frame.1 frame.2) buf

/-- An opcode of four bits, and a payload no longer than a `Vec` can be. -/
structure Serializable (frame : UInt8 × List UInt8) : Prop where
  opcode : frame.1 < 16
  payload : frame.2.length < 2 ^ 63

/-! ### One frame -/

theorem server_first_byte (opcode : UInt8) : opcode < 16 → (0x80 ||| opcode) &&& 0x80 ≠ 0 ∧
    (0x80 ||| opcode) &&& 0x70 = 0 ∧ (0x80 ||| opcode) &&& 0x0F = opcode :=
  forall_byte (P := fun opcode => opcode < 16 → (0x80 ||| opcode) &&& 0x80 ≠ 0 ∧
    (0x80 ||| opcode) &&& 0x70 = 0 ∧ (0x80 ||| opcode) &&& 0x0F = opcode) (by decide +kernel) opcode

theorem server_second_byte (len7 : UInt8) : len7 ≤ 127 → ¬len7 &&& 0x80 ≠ 0 ∧ len7 &&& 0x7F = len7 :=
  forall_byte (P := fun len7 => len7 ≤ 127 → ¬len7 &&& 0x80 ≠ 0 ∧ len7 &&& 0x7F = len7)
    (by decide +kernel) len7

/-- The length as it is written: its form, how it is read, and how long it is. -/
structure WrittenLength (len : Nat) (len7 : UInt8) (bytes : List UInt8) : Prop where
  form : LengthForm len len7 bytes
  read : ∀ rest, readLength len7 (bytes ++ rest) = some (len, rest)
  size : bytes.length = if len ≤ 125 then 0 else if len ≤ 65535 then 2 else 8

theorem serializeFrame_written (opcode : UInt8) {payload : List UInt8} (h : payload.length < 2 ^ 63) :
    ∃ len7 bytes, serializeFrame opcode payload = (0x80 ||| opcode) :: len7 :: (bytes ++ payload) ∧
      WrittenLength payload.length len7 bytes := by
  unfold serializeFrame
  generalize payload.length = len at h
  dsimp only
  by_cases h125 : len ≤ 125
  · have hnat : (UInt8.ofNat len).toNat = len := by
      rw [UInt8.toNat_ofNat']
      omega
    have hle : UInt8.ofNat len ≤ 125 := UInt8.le_iff_toNat_le.mpr (by rw [hnat]; exact h125)
    rw [if_pos h125]
    refine ⟨UInt8.ofNat len, [], rfl, .short h125, ?_, by rw [if_pos h125]; rfl⟩
    intro rest
    rw [readLength, if_pos hle, hnat]
    rfl
  rw [if_neg h125]
  by_cases h65535 : len ≤ 65535
  · have hbytes := toBeBytes_length 2 len
    have hvalue := fromBeBytes_toBeBytes 2 len (by omega)
    rw [if_pos h65535]
    refine ⟨126, toBeBytes 2 len, rfl, .medium _ hbytes hvalue, ?_, ?_⟩
    · intro rest
      have htake : (toBeBytes 2 len ++ rest).take 2 = toBeBytes 2 len := List.take_left' hbytes
      have hdrop : (toBeBytes 2 len ++ rest).drop 2 = rest := List.drop_left' hbytes
      rw [readLength, if_neg (by decide), if_pos rfl, htake, hdrop, hvalue, if_neg]
      rw [List.length_append, hbytes]
      omega
    · rw [if_neg h125, if_pos h65535, hbytes]
  · have hbytes := toBeBytes_length 8 len
    have hvalue := fromBeBytes_toBeBytes 8 len (by omega)
    rw [if_neg h65535]
    refine ⟨127, toBeBytes 8 len, rfl, .long _ hbytes hvalue h, ?_, ?_⟩
    · intro rest
      have htake : (toBeBytes 8 len ++ rest).take 8 = toBeBytes 8 len := List.take_left' hbytes
      have hdrop : (toBeBytes 8 len ++ rest).drop 8 = rest := List.drop_left' hbytes
      rw [readLength, if_neg (by decide), if_neg (by decide), htake, hdrop, hvalue, if_neg]
      rw [List.length_append, hbytes]
      omega
    · rw [if_neg h125, if_neg h65535, hbytes]

/-- A frame that was written is read back, with anything behind it. -/
theorem readFrame_serializeFrame {frame : UInt8 × List UInt8} (h : Serializable frame) (rest : List UInt8) :
    readFrame (serializeFrame frame.1 frame.2 ++ rest) = some (sent frame, rest) := by
  obtain ⟨hfin, hrsv, hop⟩ := server_first_byte frame.1 h.opcode
  obtain ⟨len7, bytes, hbytes, hlength⟩ := serializeFrame_written frame.1 h.payload
  obtain ⟨hmask, hseven⟩ := server_second_byte len7 hlength.form.seven
  rw [hbytes, List.cons_append, List.cons_append, List.append_assoc, readFrame, if_neg hmask, hseven,
    hlength.read, Option.bind_some]
  dsimp only
  rw [if_neg (by rw [List.length_append]; omega), List.take_left, List.drop_left, hrsv, hop]
  simp only [hfin, ne_eq, not_false_eq_true, decide_true]
  rfl

/-- The shortest form is as short as any other in which the length could be written. -/
theorem writtenLength_shortest {len : Nat} {len7 len7' : UInt8} {bytes bytes' : List UInt8}
    (h : WrittenLength len len7 bytes) (h' : LengthForm len len7' bytes') : bytes.length ≤ bytes'.length := by
  rw [h.size]
  cases h' with
  | short hle =>
      rw [if_pos hle]
      exact Nat.zero_le _
  | medium bytes hbytes hvalue =>
      have hlt := fromBeBytes_lt bytes'
      rw [hvalue, hbytes] at hlt
      rw [hbytes]
      split_ifs <;> omega
  | long bytes hbytes hvalue htop =>
      rw [hbytes]
      split_ifs <;> omega

/-! ### Many frames -/

theorem serializeEach_eq (buf : List UInt8) (frames : List (UInt8 × List UInt8)) :
    serializeEach buf frames = buf ++ frames.flatMap fun frame => serializeFrame frame.1 frame.2 := by
  unfold serializeEach
  induction frames generalizing buf with
  | nil => exact (List.append_nil _).symm
  | cons frame rest ih => rw [List.foldl_cons, ih, List.flatMap_cons, List.append_assoc]

theorem readFrames_flatMap (frames : List (UInt8 × List UInt8)) (h : ∀ frame ∈ frames, Serializable frame) :
    ∀ fuel, frames.length ≤ fuel →
      readFrames fuel (frames.flatMap fun frame => serializeFrame frame.1 frame.2)
        = (frames.map sent, []) := by
  induction frames with
  | nil =>
      intro fuel _
      cases fuel <;> rfl
  | cons frame rest ih =>
      intro fuel hfuel
      obtain ⟨fuel, rfl⟩ := Nat.exists_eq_succ_of_ne_zero (Nat.ne_zero_of_lt hfuel)
      have hrest := ih (fun f hf => h f (List.mem_cons_of_mem _ hf)) fuel (Nat.le_of_succ_le_succ hfuel)
      rw [List.flatMap_cons, Nat.succ_eq_add_one, readFrames,
        readFrame_serializeFrame (h frame (List.mem_cons_self ..))]
      dsimp only
      rw [hrest, List.map_cons]

/-! ### The replies -/

/-- Big-endian bytes are those of their value. -/
theorem toBeBytes_fromBeBytes (bs : List UInt8) : toBeBytes bs.length (fromBeBytes bs) = bs := by
  induction bs using List.reverseRecOn with
  | nil => rfl
  | append_singleton bs b ih =>
      have hb := b.toNat_lt
      have hdiv : (fromBeBytes bs * 256 + b.toNat) / 256 = fromBeBytes bs := by omega
      have hmod : (fromBeBytes bs * 256 + b.toNat) % 256 = b.toNat := by omega
      rw [List.length_append, List.length_singleton, toBeBytes, fromBeBytes_append, hdiv, hmod, ih,
        UInt8.ofNat_toNat]

/-- The parser lets no control frame through that is too large for one. -/
theorem control_payload {buf : List UInt8} {frame : WsFrame} {n : Nat}
    (h : tryParseFrame buf = .ok (some (frame, n))) (hcontrol : 8 ≤ frame.opcode) :
    frame.payload.length ≤ 125 := by
  have hmasked := masked_of_tryParseFrame h
  generalize buf.take n = bytes at hmasked
  cases hmasked with
  | mk fin len7 lengthBytes key hopcode hfinal hlength hkey => exact (hfinal hcontrol).2

end Mahalo.WsParse

namespace Mahalo.WsStreaming

open WsParse

/-- The payload of the reply to a CLOSE. -/
def closePayload (payload : List UInt8) : List UInt8 :=
  if payload.length ≥ 2 then payload else toBeBytes 2 1000

theorem closePayload_length {payload : List UInt8} (h : payload.length ≤ 125) :
    (closePayload payload).length ≤ 125 := by
  unfold closePayload
  split_ifs
  · exact h
  · rw [toBeBytes_length]
    omega

/-- The code and the reason of a CLOSE are put together again as they were. -/
theorem closeReply_eq (payload : List UInt8) :
    closeReply payload = serializeFrame opcodeClose (closePayload payload) := by
  unfold closeReply closePayload serializeCloseFrame
  split_ifs with h
  · have hcode : slice payload 0 2 = payload.take 2 := by rw [slice, List.drop_zero]
    have hlen : (payload.take 2).length = 2 := List.length_take_of_le h
    have hbytes := toBeBytes_fromBeBytes (payload.take 2)
    rw [hlen] at hbytes
    rw [hcode, hbytes, List.take_append_drop]
  · rw [List.append_nil]

/-- A reply that was written, as the client reads it. -/
def Replies (accepts : Nat → Bool) (out : List ReaderEvent) (frame : WsFrame) (opcode : UInt8)
    (payload : List UInt8) : Prop :=
  ∃ bytes, (onFrame accepts out frame).1 = out ++ [.write bytes] ∧
    readFrame bytes = some (sent (opcode, payload), []) ∧ payload.length ≤ 125

theorem replies_of_serialize {accepts : Nat → Bool} {out : List ReaderEvent} {frame : WsFrame}
    {opcode : UInt8} {payload : List UInt8} (hopcode : opcode < 16) (hpayload : payload.length ≤ 125)
    (h : (onFrame accepts out frame).1 = out ++ [.write (serializeFrame opcode payload)]) :
    Replies accepts out frame opcode payload := by
  have hserial : Serializable (opcode, payload) := ⟨hopcode, by dsimp only; omega⟩
  have hread := readFrame_serializeFrame hserial []
  rw [List.append_nil] at hread
  exact ⟨_, h, hread, hpayload⟩

/--
**Server frames decode back.**  For every list of frames that `serialize_frame` appends
to a buffer: the buffer stays in front of them, and behind it a client reads exactly
these frames and nothing is left; each length is in a form that no other is shorter
than.  And for every frame that `try_parse_frame` accepts: a PING is answered by a PONG
and a CLOSE by a CLOSE of at most 125 bytes, the PONG with the same payload, and the
CLOSE too if the payload had a code in it.
-/
theorem frames_decode (buf : List UInt8) (frames : List (UInt8 × List UInt8))
    (h : ∀ frame ∈ frames, Serializable frame) :
    (∃ appended, serializeEach buf frames = buf ++ appended ∧
      readFrames appended.length appended = (frames.map sent, [])) ∧
    (∀ frame ∈ frames, ∃ len7 bytes,
      serializeFrame frame.1 frame.2 = (0x80 ||| frame.1) :: len7 :: (bytes ++ frame.2) ∧
        LengthForm frame.2.length len7 bytes ∧
        ∀ len7' bytes', LengthForm frame.2.length len7' bytes' → bytes.length ≤ bytes'.length) ∧
    ∀ received frame n, tryParseFrame received = .ok (some (frame, n)) → ∀ accepts out,
      (frame.opcode = opcodePing → Replies accepts out frame opcodePong frame.payload) ∧
        (frame.opcode = opcodeClose → ∃ payload, Replies accepts out frame opcodeClose payload ∧
          (2 ≤ frame.payload.length → payload = frame.payload)) := by
  refine ⟨⟨_, serializeEach_eq buf frames, readFrames_flatMap frames h _ ?_⟩, ?_, ?_⟩
  · induction frames with
    | nil => exact Nat.le_refl _
    | cons frame rest ih =>
        have hrest := ih fun f hf => h f (List.mem_cons_of_mem _ hf)
        have hpos : 0 < (serializeFrame frame.1 frame.2).length := Nat.succ_pos _
        rw [List.flatMap_cons, List.length_append, List.length_cons]
        omega
  · intro frame hframe
    obtain ⟨len7, bytes, hbytes, hlength⟩ := serializeFrame_written frame.1 (h frame hframe).payload
    exact ⟨len7, bytes, hbytes, hlength.form, fun _ _ hform => writtenLength_shortest hlength hform⟩
  · intro received frame n hparse accepts out
    constructor
    · intro hping
      have hsmall := control_payload hparse (by rw [hping]; decide)
      refine replies_of_serialize (by decide) hsmall ?_
      unfold onFrame
      rw [hping]
      rfl
    · intro hclose
      have hsmall := control_payload hparse (by rw [hclose]; decide)
      refine ⟨closePayload frame.payload, replies_of_serialize (by decide) (closePayload_length hsmall) ?_, ?_⟩
      · rw [← closeReply_eq]
        unfold onFrame
        rw [hclose]
        rfl
      · intro htwo
        exact if_pos htwo

/-- A text, a PONG and a text of 200 bytes behind four bytes that were there before. -/
theorem frames_decode_three : ∃ appended,
    serializeEach [1, 2, 3, 4] [(opcodeText, [0x68, 0x69]), (opcodePong, []),
      (opcodeText, List.replicate 200 0x61)] = [1, 2, 3, 4] ++ appended ∧
    readFrames appended.length appended = ([(opcodeText, [0x68, 0x69]), (opcodePong, []),
      (opcodeText, List.replicate 200 0x61)].map sent, []) := by
  refine (frames_decode [1, 2, 3, 4] _ ?_).1
  intro frame hframe
  simp only [List.mem_cons, List.not_mem_nil, or_false] at hframe
  rcases hframe with rfl | rfl | rfl
  · exact ⟨by decide, by decide⟩
  · exact ⟨by decide, by decide⟩
  · refine ⟨by decide, ?_⟩
    rw [List.length_replicate]
    omega

end Mahalo.WsStreaming
