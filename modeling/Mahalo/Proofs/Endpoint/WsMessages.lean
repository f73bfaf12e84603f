/-
Which strings reach a channel, against the messages a client means.

A client sends frames with a FIN bit, and a message may take several of them.
`ClientFrame.encode` is the wire form of one frame and `completeTexts` says which
text messages a sequence of frames completes.  The parser reads the FIN bit and
`WsFrame` does not carry it, so the reader delivers every text frame as it comes.
That is right exactly for the sequences in which no message starts with a
fragment before the connection ends, and the last theorem says so.
-/
import Mahalo.Proofs.Endpoint.WsFrames
import Mahalo.Proofs.Endpoint.WsStreaming

namespace Mahalo.WsStreaming

open WsParse Segments

/-! ### What a client sends -/

/-- A masked frame with any FIN bit, opcode, key and payload that the format can express. -/
structure ClientFrame where
  fin : Bool
  opcode : Fin 16
  key : List UInt8
  payload : List UInt8
  keyed : key.length = 4
  sized : payload.length < 2 ^ 63

namespace ClientFrame

/-- The opcode as the parser sees it. -/
def op (f : ClientFrame) : UInt8 := UInt8.ofNat f.opcode

def firstByte (fin : Bool) (opcode : Fin 16) : UInt8 :=
  (if fin then 0x80 else 0) ||| UInt8.ofNat opcode

/-- The seven length bits, and the length bytes they ask for. -/
def lengthBits (len : Nat) : Nat := if len ≤ 125 then len else if len ≤ 65535 then 126 else 127

def lengthBytes (len : Nat) : List UInt8 :=
  if len ≤ 125 then [] else if len ≤ 65535 then toBeBytes 2 len else toBeBytes 8 len

/-- Everything before the masking key. -/
def front (f : ClientFrame) : List UInt8 :=
  firstByte f.fin f.opcode :: (0x80 ||| UInt8.ofNat (lengthBits f.payload.length)) ::
    lengthBytes f.payload.length

/-- The frame on the wire. -/
def encode (f : ClientFrame) : List UInt8 := f.front ++ f.key ++ unmask f.key f.payload

/-- The parser takes the frame for a protocol error. -/
def rejected (f : ClientFrame) : Bool :=
  (f.op ≥ 8 && !f.fin) || (3 ≤ f.op && f.op ≤ 7) || (11 ≤ f.op && f.op ≤ 15)
    || (f.op ≥ 8 && f.payload.length > 125)

/-- The connection ends with the frame: at a protocol error, a CLOSE or a continuation. -/
def stops (f : ClientFrame) : Bool :=
  f.rejected || f.op == opcodeClose || f.op == opcodeContinuation

end ClientFrame

def encodeAll (frames : List ClientFrame) : List UInt8 := frames.flatMap ClientFrame.encode

@[simp] theorem encodeAll_nil : encodeAll [] = [] := rfl

@[simp] theorem encodeAll_cons (f : ClientFrame) (rest : List ClientFrame) :
    encodeAll (f :: rest) = f.encode ++ encodeAll rest := rfl

theorem encodeAll_append (xs ys : List ClientFrame) :
    encodeAll (xs ++ ys) = encodeAll xs ++ encodeAll ys := List.flatMap_append

/--
The payloads of the text messages that `frames` complete, in order: that of every
text frame with FIN, and the fragments of a message put together when its last
one comes.  The first argument is the text message begun so far.
-/
def completeTexts : Option (List UInt8) → List ClientFrame → List (List UInt8)
  | _, [] => []
  | begun, f :: rest =>
      if f.op = opcodeText then
        if f.fin then f.payload :: completeTexts none rest
        else completeTexts (some f.payload) rest
      else if f.op = opcodeBinary then completeTexts none rest
      else if f.op = opcodeContinuation then
        match begun with
        | none => completeTexts none rest
        | some acc =>
            if f.fin then (acc ++ f.payload) :: completeTexts none rest
            else completeTexts (some (acc ++ f.payload)) rest
      else completeTexts begun rest

/-! ### The parser on an encoded frame -/

theorem firstByte_bits : ∀ (fin : Bool) (opcode : Fin 16),
    ClientFrame.firstByte fin opcode &&& 0x70 = 0 ∧
    ClientFrame.firstByte fin opcode &&& 0x0F = UInt8.ofNat opcode ∧
    (ClientFrame.firstByte fin opcode &&& 0x80 ≠ 0 ↔ fin = true) := by
  decide

theorem secondByte_bits : ∀ bits : Fin 128,
    (0x80 ||| UInt8.ofNat bits) &&& 0x80 ≠ 0 ∧ (0x80 ||| UInt8.ofNat bits) &&& 0x7F = UInt8.ofNat bits := by
  decide

theorem lengthBits_lt (len : Nat) : ClientFrame.lengthBits len < 128 := by
  unfold ClientFrame.lengthBits
  split
  · omega
  · split <;> omega

namespace ClientFrame

variable (f : ClientFrame)

theorem front_length :
    f.front.length = 2 + (lengthBytes f.payload.length).length := by
  unfold front
  simp only [List.length_cons]
  omega

theorem encode_length :
    f.encode.length = f.front.length + 4 + f.payload.length := by
  unfold encode
  rw [List.length_append, List.length_append, f.keyed, unmask_length]

theorem encode_append (rest : List UInt8) :
    f.encode ++ rest = firstByte f.fin f.opcode ::
      (0x80 ||| UInt8.ofNat (lengthBits f.payload.length)) ::
        (lengthBytes f.payload.length ++ (f.key ++ unmask f.key f.payload ++ rest)) := by
  simp only [encode, front, List.append_assoc, List.cons_append]

/-- The shortest of the forms is chosen. -/
theorem lengthForm :
    LengthForm f.payload.length (UInt8.ofNat (lengthBits f.payload.length))
      (lengthBytes f.payload.length) := by
  have hsized := f.sized
  unfold lengthBits lengthBytes
  by_cases h125 : f.payload.length ≤ 125
  · rw [if_pos h125, if_pos h125]
    exact .short h125
  rw [if_neg h125, if_neg h125]
  by_cases h64k : f.payload.length ≤ 65535
  · rw [if_pos h64k, if_pos h64k]
    exact .medium _ (toBeBytes_length ..) (fromBeBytes_toBeBytes 2 _ (by omega))
  · rw [if_neg h64k, if_neg h64k]
    exact .long _ (toBeBytes_length ..) (fromBeBytes_toBeBytes 8 _ (by omega)) hsized

/-- The length bytes say how long the payload is, and end where the key starts. -/
theorem payloadLen_encode (rest : List UInt8) :
    payloadLen (f.encode ++ rest) (UInt8.ofNat (lengthBits f.payload.length))
      = .ok (some (f.payload.length, f.front.length)) := by
  rw [encode_append, front_length]
  exact payloadLen_of_form f.lengthForm _ _ _

/-- The checks on the head see the opcode and the FIN bit. -/
theorem checkHead_encode :
    checkHead (firstByte f.fin f.opcode) (0x80 ||| UInt8.ofNat (lengthBits f.payload.length))
      = if f.op ≥ 8 ∧ ¬(f.fin = true) then .error (.protocolError "fragmented control frame")
        else if (3 ≤ f.op ∧ f.op ≤ 7) ∨ (11 ≤ f.op ∧ f.op ≤ 15) then
          .error (.protocolError s!"reserved opcode {f.op.toNat}")
        else .ok () := by
  obtain ⟨hrsv, hop, hfin⟩ := firstByte_bits f.fin f.opcode
  obtain ⟨hmask, -⟩ := secondByte_bits ⟨_, lengthBits_lt f.payload.length⟩
  have hf : f.op = UInt8.ofNat f.opcode := rfl
  unfold checkHead
  simp only [hrsv, hop, hfin, ← hf]
  rw [if_neg (by simp), if_neg (not_not.mpr hmask)]

theorem op_known : ∀ opcode : Fin 16, ¬(3 ≤ UInt8.ofNat opcode ∧ UInt8.ofNat opcode ≤ 7) →
    ¬(11 ≤ UInt8.ofNat opcode ∧ UInt8.ofNat opcode ≤ 15) → UInt8.ofNat opcode ∈ opcodes := by
  decide

/-- A frame that is not rejected is a masked frame of the format. -/
theorem masked (h : f.rejected = false) :
    MaskedFrame { opcode := f.op, payload := f.payload } f.encode := by
  simp only [rejected, Bool.or_eq_false_iff, Bool.and_eq_false_iff, decide_eq_false_iff_not,
    Bool.not_eq_false'] at h
  obtain ⟨⟨⟨hfrag, hlow⟩, hhigh⟩, hlarge⟩ := h
  have hknown : f.op ∈ opcodes :=
    op_known f.opcode (fun h => hlow.elim (· h.1) (· h.2)) fun h => hhigh.elim (· h.1) (· h.2)
  have hcontrol : 8 ≤ f.op → f.fin = true ∧ f.payload.length ≤ 125 := fun hge =>
    ⟨hfrag.resolve_left fun hlt => hlt hge,
      Nat.le_of_not_lt (hlarge.resolve_left fun hlt => hlt hge)⟩
  have hmasked := @MaskedFrame.mk { opcode := f.op, payload := f.payload } f.fin _ _ f.key hknown
    hcontrol f.lengthForm f.keyed
  have hencode := f.encode_append []
  rw [List.append_nil, List.append_nil] at hencode
  rw [hencode]
  exact hmasked

/-- A frame that is not rejected is parsed to its opcode and payload, and takes its encoding. -/
theorem tryParseFrame_encode (rest : List UInt8) (h : f.rejected = false) :
    tryParseFrame (f.encode ++ rest)
      = .ok (some ({ opcode := f.op, payload := f.payload }, f.encode.length)) :=
  tryParseFrame_of_masked (f.masked h) rest

/-- A rejected frame is an error, whatever follows it. -/
theorem tryParseFrame_rejected (rest : List UInt8) (h : f.rejected = true) :
    ∃ e, tryParseFrame (f.encode ++ rest) = .error e := by
  obtain ⟨-, hop, -⟩ := firstByte_bits f.fin f.opcode
  obtain ⟨-, hbits⟩ := secondByte_bits ⟨_, lengthBits_lt f.payload.length⟩
  have hhead0 : (f.encode ++ rest).getD 0 0 = firstByte f.fin f.opcode := by
    rw [encode_append]; rfl
  have hhead1 : (f.encode ++ rest).getD 1 0
      = 0x80 ||| UInt8.ofNat (lengthBits f.payload.length) := by
    rw [encode_append]; rfl
  have hfront := f.front_length
  have htwo : ¬(f.encode ++ rest).length < 2 := by
    rw [List.length_append, encode_length]; omega
  unfold tryParseFrame
  rw [if_neg htwo]
  simp only [hhead0, hhead1, checkHead_encode, hbits, hop, payloadLen_encode]
  by_cases hfrag : f.op ≥ 8 ∧ ¬(f.fin = true)
  · rw [if_pos hfrag]
    exact ⟨_, rfl⟩
  · rw [if_neg hfrag]
    by_cases hres : (3 ≤ f.op ∧ f.op ≤ 7) ∨ (11 ≤ f.op ∧ f.op ≤ 15)
    · rw [if_pos hres]
      exact ⟨_, rfl⟩
    · rw [if_neg hres]
      have hctl : UInt8.ofNat f.opcode ≥ 8 ∧ f.payload.length > 125 := by
        simp only [rejected, Bool.or_eq_true, Bool.and_eq_true, decide_eq_true_eq,
          Bool.not_eq_true'] at h
        rcases h with ((h | h) | h) | h
        · exact absurd ⟨h.1, by simp [h.2]⟩ hfrag
        · exact absurd (Or.inl h) hres
        · exact absurd (Or.inr h) hres
        · exact h
      simp only
      rw [if_pos hctl]
      exact ⟨_, rfl⟩

end ClientFrame

/-! ### What is delivered -/

/-- The texts sent on `ws_msg_tx`, in order. -/
def texts (out : List ReaderEvent) : List String :=
  out.filterMap fun
    | .send text => some text
    | .write _ => none

/-- What the reader does with a frame it goes on after. -/
def events (f : ClientFrame) : List ReaderEvent :=
  if f.op = opcodeText then [.send (RustStd.fromUtf8Lossy f.payload)]
  else if f.op = opcodePing then [.write (serializeFrame opcodePong f.payload)]
  else []

/-- The texts sent are texts of complete messages, each accounted for by a message of its own. -/
def Whole (frames : List ClientFrame) (out : List ReaderEvent) : Prop :=
  (texts out).Sublist ((completeTexts none frames).map RustStd.fromUtf8Lossy)

/--
At no moment has a text been sent that is not a complete message by then: it holds
of the frames received so far, for every beginning of the sequence, every cut of
its bytes, and whichever sends and writes succeed.
-/
def DeliversWhole (frames : List ClientFrame) : Prop :=
  ∀ sofar, sofar <+: frames → ∀ (accepts : Nat → Bool) (incoming : Incoming),
    incoming.bytes = encodeAll sofar → Whole sofar (reader accepts incoming).out

/-- No text message starts with a fragment before the frame that ends the connection. -/
def NoFragmentStart (frames : List ClientFrame) : Prop :=
  ∀ f ∈ frames.takeWhile (fun f => !f.stops), f.op = opcodeText → f.fin = true

variable {accepts : Nat → Bool}

@[simp] theorem texts_append (xs ys : List ReaderEvent) : texts (xs ++ ys) = texts xs ++ texts ys :=
  List.filterMap_append

@[simp] theorem texts_write (b : List UInt8) : texts [.write b] = [] := rfl

@[simp] theorem texts_send (t : String) : texts [.send t] = [t] := rfl

/-- A frame the connection goes on after is TEXT, BINARY, PING or PONG. -/
theorem ClientFrame.running_op {f : ClientFrame} (h : f.stops = false) :
    f.op = opcodeText ∨ f.op = opcodeBinary ∨ f.op = opcodePing ∨ f.op = opcodePong := by
  have hall : ∀ o : Fin 16, ¬(3 ≤ UInt8.ofNat o ∧ UInt8.ofNat o ≤ 7) →
      ¬(11 ≤ UInt8.ofNat o ∧ UInt8.ofNat o ≤ 15) → UInt8.ofNat o ≠ opcodeClose →
      UInt8.ofNat o ≠ opcodeContinuation →
      UInt8.ofNat o = opcodeText ∨ UInt8.ofNat o = opcodeBinary ∨ UInt8.ofNat o = opcodePing ∨
        UInt8.ofNat o = opcodePong := by decide
  simp only [stops, rejected, Bool.or_eq_false_iff, Bool.and_eq_false_iff,
    decide_eq_false_iff_not, beq_eq_false_iff_ne] at h
  obtain ⟨⟨⟨⟨⟨-, hlow⟩, hhigh⟩, -⟩, hclose⟩, hcont⟩ := h
  exact hall f.opcode (fun hb => hlow.elim (· hb.1) (· hb.2))
    (fun hb => hhigh.elim (· hb.1) (· hb.2)) hclose hcont

/-- The reader's match on a frame it may go on after. -/
theorem onFrame_running (accepts : Nat → Bool) {f : ClientFrame} (h : f.stops = false) (out : List ReaderEvent) :
    (onFrame accepts out { opcode := f.op, payload := f.payload }).1 = out ++ events f ∧
    ((∀ n, accepts n = true) →
      (onFrame accepts out { opcode := f.op, payload := f.payload }).2 = none) := by
  unfold onFrame events
  simp only
  rcases f.running_op h with hop | hop | hop | hop <;> rw [hop]
  · rw [if_pos rfl, if_pos rfl]
    exact ⟨rfl, fun hall => if_pos (hall _)⟩
  · rw [if_neg (show opcodeBinary ≠ opcodeText by decide), if_pos rfl,
      if_neg (show opcodeBinary ≠ opcodeText by decide),
      if_neg (show opcodeBinary ≠ opcodePing by decide), List.append_nil]
    exact ⟨rfl, fun _ => rfl⟩
  · rw [if_neg (show opcodePing ≠ opcodeText by decide),
      if_neg (show opcodePing ≠ opcodeBinary by decide), if_pos rfl,
      if_neg (show opcodePing ≠ opcodeText by decide), if_pos rfl]
    exact ⟨rfl, fun hall => if_pos (hall _)⟩
  · rw [if_neg (show opcodePong ≠ opcodeText by decide),
      if_neg (show opcodePong ≠ opcodeBinary by decide),
      if_neg (show opcodePong ≠ opcodePing by decide), if_pos rfl,
      if_neg (show opcodePong ≠ opcodeText by decide),
      if_neg (show opcodePong ≠ opcodePing by decide), List.append_nil]
    exact ⟨rfl, fun _ => rfl⟩

/-- At a frame that ends the connection, the reader writes a CLOSE frame and nothing else. -/
theorem drain_stopping (accepts : Nat → Bool) {f : ClientFrame} (h : f.stops = true) (out : List ReaderEvent)
    (rest : List UInt8) :
    ∃ b s left, Framing.drain tryParseFrame (handler accepts) out (f.encode ++ rest)
      = .stop (out ++ [.write b]) s left := by
  have hfront := f.front_length
  have hne : f.encode ++ rest ≠ [] := by
    intro hnil
    have := congrArg List.length hnil
    rw [List.length_append, f.encode_length, List.length_nil] at this
    omega
  cases hrej : f.rejected with
  | true =>
      obtain ⟨e, he⟩ := f.tryParseFrame_rejected rest hrej
      rw [Framing.drain_error hne he]
      exact ⟨_, _, _, rfl⟩
  | false =>
      have hp := f.tryParseFrame_encode rest hrej
      simp only [ClientFrame.stops, hrej, Bool.false_or, Bool.or_eq_true, beq_iff_eq] at h
      rcases h with hop | hop
      · have hx : onFrame accepts out { opcode := f.op, payload := f.payload }
            = (out ++ [.write (closeReply f.payload)], some .closed) := by
          unfold onFrame
          rw [hop]
          rfl
        rw [Framing.drain_stop tryParseFrame_stable hp hx]
        exact ⟨_, _, _, rfl⟩
      · have hx : onFrame accepts out { opcode := f.op, payload := f.payload }
            = (out ++ [.write (serializeCloseFrame 1002 [])], some .unknownOpcode) := by
          unfold onFrame
          rw [hop]
          rfl
        rw [Framing.drain_stop tryParseFrame_stable hp hx]
        exact ⟨_, _, _, rfl⟩

theorem ClientFrame.not_rejected {f : ClientFrame} (h : f.stops = false) : f.rejected = false := by
  simp only [stops, Bool.or_eq_false_iff] at h
  exact h.1.1

/-- On frames it goes on after, the reader does what each of them asks for. -/
theorem drain_running (hall : ∀ n, accepts n = true) :
    ∀ (frames : List ClientFrame) (out : List ReaderEvent) (rest : List UInt8),
      (∀ f ∈ frames, f.stops = false) →
      Framing.drain tryParseFrame (handler accepts) out (encodeAll frames ++ rest)
        = Framing.drain tryParseFrame (handler accepts) (out ++ frames.flatMap events) rest := by
  intro frames
  induction frames with
  | nil => intro out rest _; simp
  | cons f frames ih =>
      intro out rest hrun
      have hf := hrun f (List.mem_cons_self ..)
      obtain ⟨hout, hgo⟩ := onFrame_running accepts hf out
      have hp := f.tryParseFrame_encode (encodeAll frames ++ rest) (f.not_rejected hf)
      rw [encodeAll_cons, List.append_assoc,
        Framing.drain_frame tryParseFrame_stable hp (Prod.ext hout (hgo hall)), List.drop_left,
        ih _ _ fun g hg => hrun g (List.mem_cons_of_mem _ hg), List.flatMap_cons, List.append_assoc]

/-! ### Sequences without a fragment start deliver whole messages -/

theorem noFragmentStart_cons {f : ClientFrame} {rest : List ClientFrame} (hf : f.stops = false) :
    NoFragmentStart (f :: rest) ↔ (f.op = opcodeText → f.fin = true) ∧ NoFragmentStart rest := by
  unfold NoFragmentStart
  rw [List.takeWhile_cons_of_pos (by rw [hf]; rfl)]
  exact List.forall_mem_cons

theorem noFragmentStart_stop {f : ClientFrame} {rest : List ClientFrame} (hf : f.stops = true) :
    NoFragmentStart (f :: rest) := by
  unfold NoFragmentStart
  rw [List.takeWhile_cons_of_neg (by rw [hf]; decide)]
  intro g hg
  cases hg

theorem noFragmentStart_prefix {rest : List ClientFrame} :
    ∀ {sofar : List ClientFrame}, NoFragmentStart (sofar ++ rest) → NoFragmentStart sofar := by
  intro sofar
  induction sofar with
  | nil => intro _ g hg; cases hg
  | cons f sofar ih =>
      intro h
      cases hf : f.stops with
      | true => exact noFragmentStart_stop hf
      | false =>
          obtain ⟨hfin, hno⟩ := (noFragmentStart_cons hf).mp h
          exact (noFragmentStart_cons hf).mpr ⟨hfin, ih hno⟩

/-- The texts sent while the frames are drained, whatever was begun before them. -/
theorem drain_texts (accepts : Nat → Bool) :
    ∀ (frames : List ClientFrame) (begun : Option (List UInt8)) (out : List ReaderEvent),
      NoFragmentStart frames →
      ∃ sent, texts (Framing.drain tryParseFrame (handler accepts) out (encodeAll frames)).world
          = texts out ++ sent ∧
        sent.Sublist ((completeTexts begun frames).map RustStd.fromUtf8Lossy) := by
  intro frames
  induction frames with
  | nil => intro begun out _; exact ⟨[], by simp [Framing.Drained.world], List.nil_sublist _⟩
  | cons f rest ih =>
      intro begun out hno
      rw [encodeAll_cons]
      cases hf : f.stops with
      | true =>
          obtain ⟨b, s, left, hd⟩ := drain_stopping accepts hf out (encodeAll rest)
          rw [hd]
          exact ⟨[], by simp [Framing.Drained.world], List.nil_sublist _⟩
      | false =>
          obtain ⟨hfin, hno'⟩ := (noFragmentStart_cons hf).mp hno
          have hp := f.tryParseFrame_encode (encodeAll rest) (f.not_rejected hf)
          -- whether the reader goes on or not, the frame's own events come first
          have hstep : ∀ begun', ∃ sent,
              texts (Framing.drain tryParseFrame (handler accepts) out
                (f.encode ++ encodeAll rest)).world = texts out ++ (texts (events f) ++ sent) ∧
              sent.Sublist ((completeTexts begun' rest).map RustStd.fromUtf8Lossy) := by
            intro begun'
            have hout := (onFrame_running accepts hf out).1
            rcases hx : onFrame accepts out { opcode := f.op, payload := f.payload } with ⟨out', _ | s⟩
            · rw [hx] at hout
              simp only at hout
              rw [Framing.drain_frame tryParseFrame_stable hp hx, List.drop_left, hout]
              obtain ⟨sent, hsent, hsub⟩ := ih begun' (out ++ events f) hno'
              exact ⟨sent, by rw [hsent, texts_append, List.append_assoc], hsub⟩
            · rw [hx] at hout
              simp only at hout
              rw [Framing.drain_stop tryParseFrame_stable hp hx, hout]
              exact ⟨[], by simp [Framing.Drained.world], List.nil_sublist _⟩
          rcases f.running_op hf with hop | hop | hop | hop
          · obtain ⟨sent, hsent, hsub⟩ := hstep none
            refine ⟨_, hsent, ?_⟩
            unfold events completeTexts
            rw [if_pos hop, if_pos hop, if_pos (hfin hop), texts_send, List.singleton_append,
              List.map_cons]
            exact hsub.cons_cons _
          · obtain ⟨sent, hsent, hsub⟩ := hstep none
            refine ⟨_, hsent, ?_⟩
            unfold events completeTexts
            rw [hop]
            exact hsub
          · obtain ⟨sent, hsent, hsub⟩ := hstep begun
            refine ⟨_, hsent, ?_⟩
            unfold events completeTexts
            rw [hop]
            exact hsub
          · obtain ⟨sent, hsent, hsub⟩ := hstep begun
            refine ⟨_, hsent, ?_⟩
            unfold events completeTexts
            rw [hop]
            exact hsub

/-- The reader only appends to what it has done. -/
theorem onFrame_prefix (out : List ReaderEvent) (frame : WsFrame) :
    out <+: (onFrame accepts out frame).1 := by
  unfold onFrame
  split
  · exact List.prefix_append _ _
  · split
    · exact List.prefix_refl _
    · split
      · exact List.prefix_append _ _
      · split
        · exact List.prefix_refl _
        · split <;> exact List.prefix_append _ _

theorem drain_grows (buf : List UInt8) (out : List ReaderEvent) :
    out <+: (Framing.drain tryParseFrame (handler accepts) out buf).world :=
  Framing.drain_world tryParseFrame_stable (h := handler accepts) List.prefix_refl
    (fun hab hbc => hab.trans hbc) onFrame_prefix (fun _ _ => List.prefix_append _ _) buf out

theorem texts_prefix {xs ys : List ReaderEvent} (h : xs <+: ys) : texts xs <+: texts ys := by
  obtain ⟨zs, rfl⟩ := h
  rw [texts_append]
  exact List.prefix_append _ _

/-- Also where a frame does not fit, the texts sent are the first of the reference's. -/
theorem readerRun_texts {stream : List UInt8} {reset : Bool} :
    ∀ (fuel : Nat) (r : Reader), Invariant accepts stream reset r →
      texts (readerRun accepts fuel r).out <+: texts (reference accepts stream reset).out := by
  intro fuel
  induction fuel with
  | zero =>
      intro r hi
      rw [reference_out, hi.drained]
      exact texts_prefix (drain_grows _ _)
  | succ fuel ih =>
      intro r hi
      unfold readerRun
      by_cases hover : Oversized r
      · unfold Oversized at hover
        unfold readerStep
        rw [if_pos hover]
        simp only [texts_append, texts_write, List.append_nil]
        rw [reference_out, hi.drained]
        exact texts_prefix (drain_grows _ _)
      · have hspec := readerStep_spec hi hover
        cases hstep : readerStep accepts r with
        | inr outcome =>
            rw [hstep] at hspec
            have heq : outcome = reference accepts stream reset := hspec
            subst heq
            exact List.prefix_refl _
        | inl r' =>
            rw [hstep] at hspec
            exact ih r' hspec.1

/-! ### A fragment start is delivered -/

/-- A stream that arrives in one read. -/
def atOnce (bytes : List UInt8) (h : bytes ≠ []) : Incoming :=
  { segs := [{ bytes, spare := bytes.length, nonempty := h }], reset := false }

/-- A stream that is read at once and leaves nothing unconsumed is handled by the reference. -/
theorem reader_atOnce {bytes : List UInt8} {out : List ReaderEvent} (hne : bytes ≠ [])
    (hd : Framing.drain tryParseFrame (handler accepts) [] bytes = .more out []) :
    (reader accepts (atOnce bytes hne)).out = out := by
  have hreached : ∀ r, Reached accepts (atOnce bytes hne) r →
      r = readerInit (atOnce bytes hne) ∨ r.incoming.segs = [] := by
    intro r hr
    induction hr with
    | init => exact Or.inl rfl
    | step _ hstep ih =>
        right
        rw [readerStep_incoming hstep]
        rcases ih with rfl | hnil
        · show (pull _ (atOnce bytes hne).segs).2 = []
          have hi := invariant_init accepts (atOnce bytes hne)
          have htail := (Reader.grown_spec hi.room hi.allocated).2
          generalize ((readerInit (atOnce bytes hne)).grown.drop _).length = len at htail ⊢
          unfold atOnce
          rw [pull_whole]
          show bytes.length ≤ vecLimit len _
          unfold vecLimit
          rw [if_neg (by omega)]
          exact Nat.le_add_left _ _
        · unfold Incoming.read Incoming.readUpTo
          split
          · exact hnil
          · rw [hnil]; rfl
  have hsmall : ∀ r, Reached accepts (atOnce bytes hne) r →
      Invariant accepts (atOnce bytes hne).bytes (atOnce bytes hne).reset r → ¬Oversized r := by
    rintro r hr hi ⟨hfull, -⟩
    have hempty : r.filled = 0 := by
      rcases hreached r hr with rfl | hnil
      · rfl
      · have hbytes : r.incoming.bytes = [] := pending_eq_nil.mpr hnil
        have hstream : (atOnce bytes hne).bytes = bytes := List.append_nil _
        have hdrained := hi.drained
        rw [hstream, hd, hbytes, List.append_nil, Framing.drain_none hi.waiting] at hdrained
        cases hbuf : r.buffered with
        | nil => rw [← r.buffered_length hi.room, hbuf]; rfl
        | cons b bs => rw [hbuf] at hdrained; cases hdrained
    have := hi.allocated
    omega
  rw [reader_reference hsmall, reference_out,
    show (atOnce bytes hne).bytes = bytes from List.append_nil _, hd]
  rfl

/-- Where some message starts with a fragment, one is the first to. -/
theorem exists_first_fragment :
    ∀ frames : List ClientFrame, ¬NoFragmentStart frames →
      ∃ before f after, frames = before ++ f :: after ∧ (∀ g ∈ before, g.stops = false) ∧
        f.stops = false ∧ f.op = opcodeText ∧ f.fin = false ∧ NoFragmentStart before := by
  intro frames
  induction frames with
  | nil => intro h; exact absurd (by intro f hf; cases hf) h
  | cons f rest ih =>
      intro h
      cases hf : f.stops with
      | true => exact absurd (noFragmentStart_stop hf) h
      | false =>
          by_cases hfrag : f.op = opcodeText ∧ f.fin = false
          · refine ⟨[], f, rest, rfl, ?_, hf, hfrag.1, hfrag.2, ?_⟩ <;> · intro g hg; cases hg
          · have hfin : f.op = opcodeText → f.fin = true :=
              fun hop => eq_true_of_ne_false fun hfin => hfrag ⟨hop, hfin⟩
            obtain ⟨before, g, after, rfl, hrun, hg⟩ :=
              ih fun hno => h ((noFragmentStart_cons hf).mpr ⟨hfin, hno⟩)
            refine ⟨f :: before, g, after, rfl, List.forall_mem_cons.mpr ⟨hf, hrun⟩, hg.1, hg.2.1,
              hg.2.2.1, (noFragmentStart_cons hf).mpr ⟨hfin, hg.2.2.2⟩⟩

/-- A fragment that starts a message completes none. -/
theorem completeTexts_fragment {f : ClientFrame} (hop : f.op = opcodeText) (hfin : f.fin = false) :
    ∀ (before : List ClientFrame) (begun : Option (List UInt8)),
      (∀ g ∈ before, g.stops = false) → NoFragmentStart before →
      (completeTexts begun (before ++ [f])).length = (texts (before.flatMap events)).length := by
  intro before
  induction before with
  | nil =>
      intro begun _ _
      rw [List.nil_append]
      unfold completeTexts
      rw [if_pos hop, hfin]
      rfl
  | cons g before ih =>
      intro begun hrun hno
      have hg := hrun g (List.mem_cons_self ..)
      obtain ⟨hgfin, hno'⟩ := (noFragmentStart_cons hg).mp hno
      have hrun' : ∀ k ∈ before, k.stops = false := fun k hk => hrun k (List.mem_cons_of_mem _ hk)
      rw [List.cons_append, List.flatMap_cons, texts_append, List.length_append]
      unfold completeTexts
      rw [show events g = if g.op = opcodeText then [.send (RustStd.fromUtf8Lossy g.payload)]
        else if g.op = opcodePing then [.write (serializeFrame opcodePong g.payload)] else [] from rfl]
      rcases g.running_op hg with hgop | hgop | hgop | hgop
      · rw [if_pos hgop, if_pos hgop, if_pos (hgfin hgop), List.length_cons, ih none hrun' hno',
          texts_send, List.length_singleton, Nat.add_comm]
      · rw [hgop]
        exact (ih none hrun' hno').trans (Nat.zero_add _).symm
      · rw [hgop]
        exact (ih begun hrun' hno').trans (Nat.zero_add _).symm
      · rw [hgop]
        exact (ih begun hrun' hno').trans (Nat.zero_add _).symm

/--
**Only whole messages reach a channel, exactly when none starts with a fragment.**
At every moment of a client's sequence of frames, the texts sent are complete
messages if and only if no text frame without FIN comes before the frame that
ends the connection.
-/
theorem deliversWhole_iff (frames : List ClientFrame) :
    DeliversWhole frames ↔ NoFragmentStart frames := by
  constructor
  · intro hwhole
    by_contra hno
    obtain ⟨before, f, after, hframes, hrun, hf, hop, hfin, hnobefore⟩ :=
      exists_first_fragment frames hno
    have hpre : before ++ [f] <+: frames := ⟨after, by rw [hframes, List.append_assoc]; rfl⟩
    have hrun' : ∀ g ∈ before ++ [f], g.stops = false := by
      intro g hg
      rcases List.mem_append.mp hg with hg | hg
      · exact hrun g hg
      · rw [List.mem_singleton.mp hg]; exact hf
    have hall : ∀ n : Nat, (fun _ => true) n = true := fun _ => rfl
    have hd := drain_running hall (before ++ [f]) [] [] hrun'
    rw [List.append_nil, List.nil_append, Framing.drain_nil] at hd
    have hne : encodeAll (before ++ [f]) ≠ [] := by
      intro hnil
      have := congrArg List.length hnil
      rw [encodeAll_append, encodeAll_cons, List.length_append, List.length_append, f.encode_length,
        List.length_nil] at this
      omega
    have hsub := hwhole _ hpre (fun _ => true) (atOnce _ hne) (List.append_nil _)
    unfold Whole at hsub
    rw [reader_atOnce hne hd] at hsub
    have hlen := hsub.length_le
    have hev : events f = [.send (RustStd.fromUtf8Lossy f.payload)] := if_pos hop
    rw [List.length_map, completeTexts_fragment hop hfin before none hrun hnobefore,
      List.flatMap_append, texts_append, List.length_append, List.flatMap_cons, hev] at hlen
    exact Nat.not_succ_le_self _ hlen
  · intro hno sofar hpre accepts incoming hbytes
    have hrun := readerRun_texts (incoming.bytes.length + 1) _ (invariant_init accepts incoming)
    rw [hbytes, reference_out] at hrun
    obtain ⟨sent, hsent, hsub⟩ := drain_texts accepts sofar none []
      (by obtain ⟨rest, rfl⟩ := hpre; exact noFragmentStart_prefix hno)
    rw [hsent] at hrun
    unfold Whole reader
    rw [hbytes]
    exact hrun.sublist.trans hsub

/-- "Hello" in two fragments. -/
def hel : ClientFrame :=
  { fin := false, opcode := 1, key := [0x37, 0xfa, 0x21, 0x3d], payload := [0x48, 0x65, 0x6c]
    keyed := rfl, sized := by decide }

def lo : ClientFrame :=
  { fin := true, opcode := 0, key := [0, 0, 0, 0], payload := [0x6c, 0x6f]
    keyed := rfl, sized := by decide }

/-- The client means "Hello"; the channel gets "Hel" before the second fragment has come. -/
theorem hel_delivered :
    completeTexts none [hel, lo] = [[0x48, 0x65, 0x6c, 0x6c, 0x6f]] ∧
    completeTexts none [hel] = [] ∧
    (reader (fun _ => true) (atOnce (encodeAll [hel]) (by decide))).out = [.send "Hel"] ∧
    ¬DeliversWhole [hel, lo] := by
  have hout : (reader (fun _ => true) (atOnce (encodeAll [hel]) (by decide))).out = [.send "Hel"] :=
    reader_atOnce _ (by rfl)
  refine ⟨by decide, by decide, hout, ?_⟩
  intro hwhole
  have hsub := hwhole [hel] ⟨[lo], rfl⟩ (fun _ => true) (atOnce (encodeAll [hel]) (by decide))
    (List.append_nil _)
  unfold Whole at hsub
  rw [hout] at hsub
  exact absurd hsub (by decide)

end Mahalo.WsStreaming
