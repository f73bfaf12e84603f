/-
The reader's behaviour depends on the bytes it receives and not on their cuts.

The reference takes complete frames off the whole stream, which is
`Framing.drain`.  The reader drains a buffer after every read, and
`Framing.drain_append` puts the pieces together, so the invariant only has to say
that draining what is buffered and pending is draining the stream.

Its other half is about the buffer.  `split_off` and `extend_from_slice` leave
the buffer exactly as long as its contents, and consuming a frame shifts the
contents without shortening it, so a read is offered no room only if the buffer
could not be doubled.  Doubling is refused at `wsMaxFrameSize` bytes without a
complete frame, and a frame that fits is complete by then.
-/
import Mahalo.Endpoint.WsStreaming
import Mahalo.Proofs.Endpoint.Stream
import Mahalo.Proofs.Endpoint.WsParse
import Mathlib.Logic.Relation

namespace Mahalo.WsStreaming

open WsParse Segments

/-- The reader's match on a frame and on an error, as the handler of a drain. -/
def handler (accepts : Nat → Bool) : Framing.Handler (List ReaderEvent) WsError WsFrame Stop :=
  { onFrame := onFrame accepts, onError }

/-- How the reader returns when a stream is drained and then over. -/
def ended (reset : Bool) : Framing.Drained UInt8 (List ReaderEvent) Stop → Outcome
  | .more out rest => { out, stop := if reset then .readError else .endOfStream, unread := rest }
  | .stop out s rest => { out, stop := s, unread := rest }

/-- `try_parse_frame` applied to the whole unconsumed stream, again and again. -/
def reference (accepts : Nat → Bool) (stream : List UInt8) (reset : Bool) : Outcome :=
  ended reset (Framing.drain tryParseFrame (handler accepts) [] stream)

/-- Every frame of the stream, also the one it may break off in, has an encoded size that fits. -/
def FramesFit (stream : List UInt8) : Prop :=
  ∀ rest, Framing.Boundary tryParseFrame stream rest →
    ∀ size, declaredSize rest = some size → size ≤ wsMaxFrameSize

variable {accepts : Nat → Bool} {stream : List UInt8} {reset : Bool}

/-! ### The inner loop -/

/-- The inner loop drains the filled part of the buffer, and leaves its length alone. -/
theorem parseLoop_drain (accepts : Nat → Bool) :
    ∀ (fuel : Nat) (readBuf : List UInt8) (filled : Nat) (out : List ReaderEvent),
      filled ≤ readBuf.length → filled < fuel →
      match Framing.drain tryParseFrame (handler accepts) out (readBuf.take filled) with
      | .more out' rest => ∃ buf, parseLoop accepts fuel readBuf filled out = .more buf rest.length out'
          ∧ buf.length = readBuf.length ∧ buf.take rest.length = rest
      | .stop out' s rest => parseLoop accepts fuel readBuf filled out = .stop out' s rest := by
  intro fuel
  induction fuel with
  | zero => intro readBuf filled out _ h; omega
  | succ fuel ih =>
      intro readBuf filled out hroom hfuel
      have hlen : (readBuf.take filled).length = filled := List.length_take_of_le hroom
      unfold parseLoop
      cases hp : tryParseFrame (readBuf.take filled) with
      | error e =>
          have hne : readBuf.take filled ≠ [] := by
            intro hnil
            rw [hnil] at hp
            cases hp
          rw [Framing.drain_error hne hp]
          rfl
      | ok o =>
          rcases o with _ | ⟨frame, consumed⟩
          · rw [Framing.drain_none hp]
            exact ⟨readBuf, by rw [hlen], rfl, by rw [hlen]⟩
          · have hcons := tryParseFrame_stable.consumes hp
            rw [hlen] at hcons
            rcases hx : onFrame accepts out frame with ⟨out', _ | s⟩
            · rw [Framing.drain_frame tryParseFrame_stable hp hx]
              have hrec := ih (copyWithin readBuf consumed filled) (filled - consumed) out'
                (by rw [copyWithin_length hroom hcons.2]; omega) (by omega)
              rw [copyWithin_take hroom hcons.2, copyWithin_length hroom hcons.2] at hrec
              simp only [hx]
              exact hrec
            · rw [Framing.drain_stop tryParseFrame_stable hp hx]
              simp only [hx]

/-! ### One round of the outer loop -/

/-- What holds of the loop's variables before every round on a stream. -/
structure Invariant (accepts : Nat → Bool) (stream : List UInt8) (reset : Bool) (r : Reader) :
    Prop where
  room : r.filled ≤ r.readBuf.length
  allocated : 0 < r.readBuf.length
  /-- every complete frame was taken before the round ended -/
  waiting : tryParseFrame r.buffered = .ok none
  /-- and what was done so far was done with them -/
  handled : ∃ frames, Framing.Handled tryParseFrame (handler accepts) [] stream frames r.out
    (r.buffered ++ r.incoming.bytes)
  ending : r.incoming.reset = reset

theorem Invariant.boundary {r : Reader} (hi : Invariant accepts stream reset r) :
    Framing.Boundary tryParseFrame stream (r.buffered ++ r.incoming.bytes) := by
  obtain ⟨frames, hhandled⟩ := hi.handled
  exact hhandled.boundary

theorem Invariant.drained {r : Reader} (hi : Invariant accepts stream reset r) :
    Framing.drain tryParseFrame (handler accepts) [] stream
      = Framing.drain tryParseFrame (handler accepts) r.out (r.buffered ++ r.incoming.bytes) := by
  obtain ⟨frames, hhandled⟩ := hi.handled
  exact hhandled.drain tryParseFrame_stable

theorem invariant_init (accepts : Nat → Bool) (incoming : Incoming) :
    Invariant accepts incoming.bytes incoming.reset (readerInit incoming) where
  room := Nat.zero_le _
  allocated := by
    show 0 < (List.replicate defaultBufSize (0 : UInt8)).length
    rw [List.length_replicate]
    decide
  waiting := rfl
  handled := ⟨[], .done _ _⟩
  ending := rfl

theorem Reader.buffered_length {r : Reader} (hroom : r.filled ≤ r.readBuf.length) :
    r.buffered.length = r.filled := List.length_take_of_le hroom

/-- Growing keeps the contents, and leaves room behind them. -/
theorem Reader.grown_spec {r : Reader} (hroom : r.filled ≤ r.readBuf.length)
    (halloc : 0 < r.readBuf.length) :
    r.grown.take r.filled = r.buffered ∧ 0 < (r.grown.drop r.filled).length := by
  unfold Reader.grown Reader.buffered
  by_cases hfull : r.filled = r.readBuf.length
  · rw [if_pos hfull]
    rw [hfull, resize_take (by omega), List.take_length, List.length_drop, resize_length (by omega)]
    exact ⟨rfl, by omega⟩
  · rw [if_neg hfull]
    refine ⟨rfl, ?_⟩
    rw [List.length_drop]
    omega

/-- A full buffer that cannot be doubled holds the start of a frame that is too long. -/
theorem oversized {r : Reader} (hi : Invariant accepts stream reset r) (hfull : r.filled = r.readBuf.length)
    (hmax : r.readBuf.length ≥ wsMaxFrameSize) :
    ∃ rest, Framing.Boundary tryParseFrame stream rest ∧
      ∃ size, declaredSize rest = some size ∧ wsMaxFrameSize < size := by
  have hlen : r.buffered.length = r.filled := r.buffered_length hi.room
  have hbig : wsMaxFrameSize ≥ 10 := by decide
  rcases tryParseFrame_none hi.waiting with hshort | ⟨size, hsize, hlt⟩
  · omega
  · exact ⟨_, hi.boundary, size, declaredSize_append hsize _, by omega⟩

/-- What the drain of the whole stream does from a round on. -/
theorem Invariant.reference {r : Reader} (hi : Invariant accepts stream reset r) :
    reference accepts stream reset = ended reset
      (Framing.drain tryParseFrame (handler accepts) r.out (r.buffered ++ r.incoming.bytes)) := by
  rw [← hi.drained]
  rfl

/-- Once the stream is over, a round returns: its read returns 0 or fails. -/
theorem readerStep_over {r : Reader} (hi : Invariant accepts stream reset r)
    (hfits : ¬(r.filled = r.readBuf.length ∧ r.readBuf.length ≥ wsMaxFrameSize))
    (hover : r.incoming.segs = []) :
    readerStep accepts r = .inr (reference accepts stream reset) := by
  obtain ⟨hhead, -⟩ := r.grown_spec hi.room hi.allocated
  have href := hi.reference
  have hbytes : r.incoming.bytes = [] := pending_eq_nil.mpr hover
  rw [hbytes, List.append_nil, Framing.drain_none hi.waiting] at href
  rw [href, ← hi.ending]
  unfold readerStep
  rw [if_neg hfits]
  simp only [Incoming.read, Incoming.readUpTo, hhead]
  rw [hover]
  cases hreset : r.incoming.reset with
  | true => rfl
  | false => simp [ended, Incoming.bytes, pull]

/-- The variables after a read whose frames were all taken. -/
theorem Invariant.read {r : Reader} (hi : Invariant accepts stream reset r) {got : List UInt8}
    {incoming : Incoming} (hcut : got ++ incoming.bytes = r.incoming.bytes)
    (hreset : incoming.reset = r.incoming.reset) {out : List ReaderEvent} {rest buf : List UInt8}
    (hd : Framing.drain tryParseFrame (handler accepts) r.out (r.buffered ++ got) = .more out rest)
    (hroom : rest.length ≤ buf.length) (halloc : 0 < buf.length)
    (htake : buf.take rest.length = rest) :
    Invariant accepts stream reset { readBuf := buf, filled := rest.length, incoming, out } := by
  have hsplit : r.buffered ++ r.incoming.bytes = (r.buffered ++ got) ++ incoming.bytes := by
    rw [List.append_assoc, hcut]
  obtain ⟨⟨more, hmore⟩, hrest⟩ := Framing.drain_more tryParseFrame_stable hd
  obtain ⟨frames, hframes⟩ := hi.handled
  rw [hsplit] at hframes
  refine ⟨hroom, halloc, ?_, ⟨frames ++ more, ?_⟩, hreset.trans hi.ending⟩
  · show tryParseFrame (buf.take rest.length) = .ok none
    rw [htake]
    rcases hrest with rfl | hnone
    · rfl
    · exact hnone
  · show Framing.Handled _ _ _ _ _ _ (buf.take rest.length ++ incoming.bytes)
    rw [htake]
    exact hframes.trans (hmore.append tryParseFrame_stable incoming.bytes)

/-- What a round ends with: the next round's variables with fewer bytes to come, or an outcome. -/
def StepSpec (accepts : Nat → Bool) (stream : List UInt8) (reset : Bool) (r : Reader) :
    Reader ⊕ Outcome → Prop
  | .inl r' => Invariant accepts stream reset r' ∧ r'.incoming.bytes.length < r.incoming.bytes.length
  | .inr outcome => outcome = reference accepts stream reset

/-- One round keeps the invariant and gets some bytes, or returns what the reference does. -/
theorem readerStep_spec {r : Reader} (hi : Invariant accepts stream reset r)
    (hfits : ¬(r.filled = r.readBuf.length ∧ r.readBuf.length ≥ wsMaxFrameSize)) :
    StepSpec accepts stream reset r (readerStep accepts r) := by
  by_cases hover : r.incoming.segs = []
  · rw [readerStep_over hi hfits hover]
    rfl
  obtain ⟨hhead, htail⟩ := r.grown_spec hi.room hi.allocated
  obtain ⟨got, incoming, hread, -, -, hgot, hcut, hreset⟩ :=
    Incoming.readUpTo_more _ (vecLimit_pos htail) hover
  have hpos : 0 < got.length := List.length_pos_iff.mpr hgot
  have hcount := congrArg List.length hcut
  rw [List.length_append] at hcount
  have hblen : r.buffered.length = r.filled := r.buffered_length hi.room
  have hbuf : (r.buffered ++ got).take (r.filled + got.length) = r.buffered ++ got :=
    List.take_of_length_le (by rw [List.length_append]; omega)
  have hloop := parseLoop_drain accepts (r.filled + got.length + 1)
    (r.buffered ++ got) (r.filled + got.length) r.out
    (by rw [List.length_append]; omega) (Nat.lt_succ_self _)
  rw [hbuf] at hloop
  unfold readerStep Incoming.read
  rw [if_neg hfits]
  simp only [hread, hhead]
  rw [if_neg (by omega)]
  cases hd : Framing.drain tryParseFrame (handler accepts) r.out (r.buffered ++ got) with
  | stop out s rest =>
      rw [hd] at hloop
      simp only at hloop
      rw [hloop]
      show _ = reference accepts stream reset
      rw [hi.reference, ← hcut, ← List.append_assoc, Framing.drain_append tryParseFrame_stable, hd]
      rfl
  | more out rest =>
      rw [hd] at hloop
      obtain ⟨buf, hparse, hbuflen, htake⟩ := hloop
      rw [hparse]
      obtain ⟨⟨frames, hframes⟩, -⟩ := Framing.drain_more tryParseFrame_stable hd
      have hle := hframes.boundary.length_le
      rw [List.length_append] at hbuflen hle
      refine ⟨hi.read hcut hreset hd (by omega) (by omega) htake, ?_⟩
      show incoming.bytes.length < r.incoming.bytes.length
      omega

/-! ### The whole run -/

/-- The variables the reader comes through, round after round. -/
inductive Reached (accepts : Nat → Bool) (incoming : Incoming) : Reader → Prop
  | init : Reached accepts incoming (readerInit incoming)
  | step {r r' : Reader} : Reached accepts incoming r → readerStep accepts r = .inl r' →
      Reached accepts incoming r'

/-- The buffer is full of an incomplete frame and too long to be doubled. -/
def Oversized (r : Reader) : Prop :=
  r.filled = r.readBuf.length ∧ r.readBuf.length ≥ wsMaxFrameSize

/-- On frames that fit, the reader never closes with 1009. -/
theorem not_oversized {r : Reader} (hfit : FramesFit stream) (hi : Invariant accepts stream reset r) :
    ¬Oversized r := by
  rintro ⟨hfull, hmax⟩
  obtain ⟨rest, hb, size, hsize, hlt⟩ := oversized hi hfull hmax
  have := hfit rest hb size hsize
  omega

theorem not_oversized_of_step {r r' : Reader} (h : readerStep accepts r = .inl r') : ¬Oversized r := by
  rintro ⟨hfull, hmax⟩
  unfold readerStep at h
  rw [if_pos ⟨hfull, hmax⟩] at h
  cases h

theorem readerStep_incoming {r r' : Reader} (h : readerStep accepts r = .inl r') :
    r'.incoming = (r.incoming.read (r.grown.drop r.filled).length).2 := by
  unfold readerStep at h
  split at h
  · cases h
  · dsimp only at h
    split at h
    · cases h
    · rename_i hread
      split at h
      · cases h
      · split at h
        · cases h
          rw [hread]
        · cases h

theorem invariant_reached {incoming : Incoming} {r : Reader} (hr : Reached accepts incoming r) :
    Invariant accepts incoming.bytes incoming.reset r := by
  induction hr with
  | init => exact invariant_init accepts incoming
  | step hr hstep ih =>
      have hspec := readerStep_spec ih (not_oversized_of_step hstep)
      rw [hstep] at hspec
      exact hspec.1

theorem reference_out (stream : List UInt8) (reset : Bool) :
    (reference accepts stream reset).out
      = (Framing.drain tryParseFrame (handler accepts) [] stream).world := by
  unfold reference
  cases Framing.drain tryParseFrame (handler accepts) [] stream <;> rfl

section

variable {incoming : Incoming}
  (hsmall : ∀ r, Reached accepts incoming r →
    Invariant accepts incoming.bytes incoming.reset r → ¬Oversized r)

include hsmall

/-- With a round for every byte to come and one more, the run is the reference's. -/
theorem readerRun_reference :
    ∀ (fuel : Nat) (r : Reader), Reached accepts incoming r → r.incoming.bytes.length < fuel →
      readerRun accepts fuel r = reference accepts incoming.bytes incoming.reset := by
  intro fuel
  induction fuel with
  | zero => intro r _ h; omega
  | succ fuel ih =>
      intro r hr hfuel
      have hi := invariant_reached hr
      have hspec := readerStep_spec hi (hsmall r hr hi)
      unfold readerRun
      cases hstep : readerStep accepts r with
      | inr outcome =>
          rw [hstep] at hspec
          exact hspec
      | inl r' =>
          rw [hstep] at hspec
          have hless := hspec.2
          exact ih r' (hr.step hstep) (by omega)

theorem reader_reference :
    reader accepts incoming = reference accepts incoming.bytes incoming.reset :=
  readerRun_reference hsmall _ _ .init (Nat.lt_succ_self _)

end

/-- The verdicts the handler can give. -/
theorem handler_verdict (out : List ReaderEvent) (frame : WsFrame) {out' : List ReaderEvent} {s : Stop}
    (h : onFrame accepts out frame = (out', some s)) : s ≠ .messageTooBig ∧ s ≠ .outOfFuel := by
  unfold onFrame at h
  split at h
  · cases ha : accepts out.length <;> simp [ha] at h
    rw [← h.2]; decide
  · split at h
    · cases h
    · split at h
      · cases ha : accepts out.length <;> simp [ha] at h
        rw [← h.2]; decide
      · split at h
        · cases h
        · split at h <;> · cases h; decide

theorem reference_stop (accepts : Nat → Bool) (stream : List UInt8) (reset : Bool) :
    (reference accepts stream reset).stop ≠ .messageTooBig ∧
      (reference accepts stream reset).stop ≠ .outOfFuel := by
  unfold reference
  cases hd : Framing.drain tryParseFrame (handler accepts) [] stream with
  | more out rest => cases reset <;> exact ⟨nofun, nofun⟩
  | stop out s rest =>
      exact Framing.drain_verdict tryParseFrame_stable (h := handler accepts)
        (fun w x _ _ hx => handler_verdict w x hx) (fun _ _ => ⟨nofun, nofun⟩) _ _ hd

/--
**The reader's behaviour depends on the bytes, not on how they arrive.**  On a
stream whose frames fit, however it is cut, the reader sends, writes, stops and
leaves unread what the reference does on the whole stream.  It never closes with
1009.  Before every read, what is buffered and what has yet to arrive are the
stream from a frame boundary on, and the read is offered a buffer with room.
-/
theorem reader_eq_reference (accepts : Nat → Bool) (incoming : Incoming)
    (hfit : FramesFit incoming.bytes) :
    reader accepts incoming = reference accepts incoming.bytes incoming.reset ∧
    (reader accepts incoming).stop ≠ .messageTooBig ∧
    (reader accepts incoming).stop ≠ .outOfFuel ∧
    ∀ r, Reached accepts incoming r →
      r.filled ≤ r.readBuf.length ∧
      0 < (r.grown.drop r.filled).length ∧
      r.grown.take r.filled = r.buffered ∧
      Framing.Boundary tryParseFrame incoming.bytes (r.buffered ++ r.incoming.bytes) ∧
      Framing.drain tryParseFrame (handler accepts) [] incoming.bytes
        = Framing.drain tryParseFrame (handler accepts) r.out (r.buffered ++ r.incoming.bytes) := by
  have hrun : reader accepts incoming = reference accepts incoming.bytes incoming.reset :=
    reader_reference fun _ _ => not_oversized hfit
  rw [hrun]
  obtain ⟨hsmall, hfuel⟩ := reference_stop accepts incoming.bytes incoming.reset
  refine ⟨rfl, hsmall, hfuel, ?_⟩
  intro r hr
  have hi := invariant_reached hr
  obtain ⟨hhead, htail⟩ := r.grown_spec hi.room hi.allocated
  exact ⟨hi.room, htail, hhead, hi.boundary, hi.drained⟩

/-- A PING frame that arrives in two pieces. -/
def pingInTwo : Incoming :=
  { segs := [{ bytes := [0x89, 0x81, 0], spare := 0, nonempty := by decide },
      { bytes := [0, 0, 0, 0x68], spare := 5, nonempty := by decide }]
    reset := false }

theorem reader_eq_reference_pingInTwo :
    FramesFit pingInTwo.bytes ∧
    reader (fun _ => true) pingInTwo = reference (fun _ => true) pingInTwo.bytes false ∧
    (reference (fun _ => true) pingInTwo.bytes false).out = [.write [0x8a, 1, 0x68]] := by
  have hfit : FramesFit pingInTwo.bytes := by
    intro rest hb size hsize
    cases hb with
    | whole =>
        cases (show declaredSize pingInTwo.bytes = some 7 by decide).symm.trans hsize
        decide
    | frame hp hb =>
        cases (show tryParseFrame pingInTwo.bytes
          = .ok (some ({ opcode := opcodePing, payload := [0x68] }, 7)) by decide).symm.trans hp
        cases hb with
        | whole => cases hsize
        | frame hp' _ => cases hp'
  exact ⟨hfit, (reader_eq_reference (fun _ => true) pingInTwo hfit).1, by decide⟩

end Mahalo.WsStreaming
