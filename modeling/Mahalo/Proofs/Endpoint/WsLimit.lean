/-
The frame size limit, and how the bytes arrive.

The reader compares its buffer with the limit when the buffer happens to be full, and
after a read that completes no frame the buffer is as long as its contents.  A read
doubles it first, so one read can take a frame from below the limit to far behind it.
What is true is that the limit is enforced where the reads stop in time: no read goes on
behind the byte number 2^20 of a frame that declares more, and the stream does not end
before the reader has found its buffer full of one.
-/
import Mahalo.Proofs.Endpoint.WsFrames
import Mahalo.Proofs.Endpoint.WsStreaming

namespace Mahalo.WsStreaming

open WsParse Segments Framing

variable {accepts : Nat → Bool} {incoming : Incoming}

/-! ### One round -/

/-- The frame in front declares more than the limit. -/
def TooBig (stream : List UInt8) : Prop := ∃ size, declaredSize stream = some size ∧ wsMaxFrameSize < size

/-- The read of the round: what it returns, and what has yet to arrive behind it. -/
def Reader.read (r : Reader) : ReadResult × Incoming := r.incoming.read (r.grown.drop r.filled).length

/-- What the buffer holds before the frames are taken. -/
def Reader.received (r : Reader) : List UInt8 :=
  match r.read.1 with
  | .ok bytes => r.buffered ++ bytes
  | .err => r.buffered

/-- What is received and what has yet to arrive are the stream from the buffer on. -/
theorem received_append {stream : List UInt8} {reset : Bool} {r : Reader}
    (hi : Invariant accepts stream reset r) :
    r.received ++ r.read.2.bytes = r.buffered ++ r.incoming.bytes := by
  obtain ⟨-, htail⟩ := r.grown_spec hi.room hi.allocated
  unfold Reader.received Reader.read Incoming.read
  by_cases hover : r.incoming.segs = []
  · have hbytes : r.incoming.bytes = [] := pending_eq_nil.mpr hover
    unfold Incoming.readUpTo
    rw [hover]
    cases r.incoming.reset with
    | true => rfl
    | false =>
        show r.buffered ++ [] ++ [] = _
        rw [hbytes, List.append_nil]
  · obtain ⟨got, rest, hread, -, -, -, hcut, -⟩ := Incoming.readUpTo_more _ (vecLimit_pos htail) hover
    rw [hread]
    show r.buffered ++ got ++ rest.bytes = _
    rw [List.append_assoc, hcut]

/-- A read that completes no frame makes the buffer as long as its contents. -/
theorem readerStep_waits (accepts : Nat → Bool) {r : Reader} (hfilled : r.filled ≤ r.readBuf.length)
    (halloc : 0 < r.readBuf.length) (hroom : ¬Oversized r) (hsegs : r.incoming.segs ≠ [])
    (hwaits : tryParseFrame r.received = .ok none) :
    readerStep accepts r = .inl {
      readBuf := r.received, filled := r.received.length, incoming := r.read.2, out := r.out } := by
  obtain ⟨hhead, htail⟩ := r.grown_spec hfilled halloc
  obtain ⟨got, rest, hread, -, -, hgot, -, -⟩ := Incoming.readUpTo_more _ (vecLimit_pos htail) hsegs
  have hread : r.read = (.ok got, rest) := hread
  have hreceived : r.received = r.buffered ++ got := by
    unfold Reader.received
    rw [hread]
  have hlength : r.received.length = r.filled + got.length := by
    rw [hreceived, List.length_append, r.buffered_length hfilled]
  have hpos := List.length_pos_iff.mpr hgot
  have hloop := parseLoop_drain accepts (r.filled + got.length + 1) r.received (r.filled + got.length)
    r.out (by omega) (Nat.lt_succ_self _)
  rw [← hlength, List.take_length, drain_none hwaits] at hloop
  obtain ⟨buf, hparse, hbuf, htake⟩ := hloop
  have hbuf : buf = r.received := by rw [← htake, ← hbuf, List.take_length]
  have hread' : r.incoming.read (r.grown.drop r.filled).length = (.ok got, rest) := hread
  have hroom : ¬(r.filled = r.readBuf.length ∧ r.readBuf.length ≥ wsMaxFrameSize) := hroom
  unfold readerStep
  rw [if_neg hroom]
  dsimp only
  rw [hread', hhead]
  dsimp only
  rw [if_neg (by omega), ← hreceived, ← hlength, hparse, hbuf, hread]

/-! ### Reads that stop in time -/

/-- Of a frame that declares too much the read of the round leaves all behind the limit. -/
structure ReadsInTime (stream : List UInt8) (r : Reader) : Prop where
  stops : ¬Oversized r → ∀ rest, Boundary tryParseFrame stream rest → TooBig rest →
    rest.length ≤ wsMaxFrameSize + r.read.2.bytes.length
  /-- the stream is not over before the buffer is full of such a frame -/
  goesOn : r.incoming.segs = [] → TooBig r.buffered → Oversized r

/-- What is to be said of a round: no frame that is handled is too long, and none in the buffer. -/
structure WithinLimit (accepts : Nat → Bool) (r : Reader) : Prop where
  handled : ∀ frames out rest frame size,
    Handled tryParseFrame (handler accepts) r.out r.received frames out rest →
    tryParseFrame rest = .ok (some (frame, size)) → size ≤ wsMaxFrameSize
  whole : ∀ rest frame size, Boundary tryParseFrame r.received rest →
    tryParseFrame rest = .ok (some (frame, size)) → size ≤ wsMaxFrameSize
  part : ∀ rest, Boundary tryParseFrame r.received rest → tryParseFrame rest = .ok none →
    rest.length ≤ wsMaxFrameSize

theorem TooBig.append {stream : List UInt8} (h : TooBig stream) (ext : List UInt8) : TooBig (stream ++ ext) := by
  obtain ⟨size, hsize, hlt⟩ := h
  exact ⟨size, declaredSize_append hsize ext, hlt⟩

/-- A frame that is waited for and has passed the limit declares too much. -/
theorem tooBig_of_waiting {buf : List UInt8} (h : tryParseFrame buf = .ok none)
    (hlong : wsMaxFrameSize < buf.length) : TooBig buf := by
  have hten : 10 ≤ wsMaxFrameSize := by decide
  rcases tryParseFrame_none h with hshort | ⟨size, hsize, hlt⟩
  · omega
  · exact ⟨size, hsize, by omega⟩

theorem withinLimit_of_inTime {stream : List UInt8} {reset : Bool} {r : Reader}
    (hi : Invariant accepts stream reset r) (hroom : ¬Oversized r) (hin : ReadsInTime stream r) :
    WithinLimit accepts r := by
  have hstream : ∀ {rest}, Boundary tryParseFrame r.received rest → TooBig rest →
      rest.length ≤ wsMaxFrameSize := by
    intro rest hb hbig
    have hboundary := hb.append tryParseFrame_stable r.read.2.bytes
    rw [received_append hi] at hboundary
    have hstops := hin.stops hroom _ (hi.boundary.trans hboundary) (hbig.append _)
    rw [List.length_append] at hstops
    omega
  have hwhole : ∀ rest frame size, Boundary tryParseFrame r.received rest →
      tryParseFrame rest = .ok (some (frame, size)) → size ≤ wsMaxFrameSize := by
    intro rest frame size hb hframe
    by_contra hlarge
    have hlength := hstream hb ⟨size, declaredSize_of_some hframe, by omega⟩
    have hconsumes := (tryParseFrame_stable.consumes hframe).2
    omega
  constructor
  case handled => exact fun frames out rest frame size hh => hwhole rest frame size hh.boundary
  case whole => exact hwhole
  case part =>
    intro rest hb hnone
    by_contra hlong
    exact hlong (hstream hb (tooBig_of_waiting hnone (by omega)))

/-! ### The whole run -/

/-- The run goes on from wherever it has come to. -/
theorem reader_from {r : Reader} (hr : Reached accepts incoming r) :
    ∃ fuel, r.incoming.bytes.length < fuel ∧ readerRun accepts fuel r = reader accepts incoming := by
  induction hr with
  | init => exact ⟨incoming.bytes.length + 1, Nat.lt_succ_self _, rfl⟩
  | @step r r' hr hstep ih =>
      obtain ⟨fuel, hfuel, hrun⟩ := ih
      obtain ⟨fuel, rfl⟩ : ∃ k, fuel = k + 1 := ⟨fuel - 1, by omega⟩
      have hspec := readerStep_spec (invariant_reached hr) (not_oversized_of_step hstep)
      rw [hstep] at hspec
      have hless := hspec.2
      refine ⟨fuel, by omega, ?_⟩
      rw [← hrun, readerRun, hstep]

/-- The connection is closed with 1009, and with nothing behind that. -/
structure ClosedWith1009 (outcome : Outcome) : Prop where
  stop : outcome.stop = .messageTooBig
  last : outcome.out.getLast? = some (.write (serializeCloseFrame 1009 messageTooBigReason))

theorem closed_of_oversized {r : Reader} (hr : Reached accepts incoming r) (hover : Oversized r) :
    ClosedWith1009 (reader accepts incoming) := by
  obtain ⟨fuel, hfuel, hrun⟩ := reader_from hr
  obtain ⟨fuel, rfl⟩ : ∃ k, fuel = k + 1 := ⟨fuel - 1, by omega⟩
  have hover : r.filled = r.readBuf.length ∧ r.readBuf.length ≥ wsMaxFrameSize := hover
  rw [← hrun]
  unfold readerRun readerStep
  rw [if_pos hover]
  exact ⟨rfl, List.getLast?_concat⟩

/-- A frame that declares too much fills the buffer, read after read. -/
theorem closed_of_tooBig (hin : ∀ r, Reached accepts incoming r → ReadsInTime incoming.bytes r) :
    ∀ (len : Nat) (r : Reader), r.incoming.bytes.length = len → Reached accepts incoming r →
      TooBig (r.buffered ++ r.incoming.bytes) → ClosedWith1009 (reader accepts incoming) := by
  intro len
  induction len using Nat.strongRecOn with
  | ind len ih =>
      intro r hlen hr hbig
      have hi := invariant_reached hr
      by_cases hover : Oversized r
      · exact closed_of_oversized hr hover
      by_cases hsegs : r.incoming.segs = []
      · have hbytes : r.incoming.bytes = [] := pending_eq_nil.mpr hsegs
        rw [hbytes, List.append_nil] at hbig
        exact absurd ((hin r hr).goesOn hsegs hbig) hover
      have hstops := (hin r hr).stops hover _ hi.boundary hbig
      rw [← received_append hi] at hstops hbig
      rw [List.length_append] at hstops
      obtain ⟨size, hsize, hlt⟩ := hbig
      have hwaits := tryParseFrame_short hsize (by omega)
      have hstep := readerStep_waits accepts hi.room hi.allocated hover hsegs hwaits
      have hspec := readerStep_spec hi hover
      rw [hstep] at hspec
      refine ih _ (by rw [← hlen]; exact hspec.2) _ rfl (hr.step hstep) ?_
      show TooBig (r.received.take r.received.length ++ r.read.2.bytes)
      rw [List.take_length]
      exact ⟨size, hsize, hlt⟩

/-! ### One frame in several reads -/

/-- The pieces of a stream from `p` on, cut at each of the positions. -/
def cutSegs (stream : List UInt8) : Nat → List Nat → List (Segment UInt8)
  | _, [] => []
  | p, q :: qs =>
      if h : slice stream p q = [] then cutSegs stream q qs
      else { bytes := slice stream p q, spare := 0, nonempty := h } :: cutSegs stream q qs

/-- The variables when `p` bytes have come and no frame was complete. -/
def filledTo (stream : List UInt8) (p : Nat) (cuts : List Nat) : Reader where
  readBuf := if p = 0 then List.replicate defaultBufSize 0 else stream.take p
  filled := p
  incoming := { segs := cutSegs stream p cuts, reset := false }
  out := []

/-- Every piece fits the buffer as it is then, and is read before the frame is whole. -/
def fills (size : Nat) : Nat → List Nat → Bool
  | _, [] => true
  | p, q :: qs =>
      p < q && q ≤ p + (if p = 0 then defaultBufSize else p) && p < wsMaxFrameSize && q < size &&
        fills size q qs

theorem filledTo_buf {stream : List UInt8} {p : Nat} (hp : p ≤ stream.length) (cuts : List Nat) :
    (filledTo stream p cuts).buffered = stream.take p ∧
      ((filledTo stream p cuts).grown.drop p).length = if p = 0 then defaultBufSize else p := by
  unfold Reader.buffered Reader.grown filledTo
  dsimp only
  by_cases hzero : p = 0
  · subst hzero
    rw [if_pos rfl, if_pos rfl, List.length_replicate, if_neg (by decide), List.length_drop,
      List.length_replicate]
    exact ⟨rfl, rfl⟩
  · have hlength : (stream.take p).length = p := List.length_take_of_le hp
    rw [if_neg hzero, if_neg hzero, hlength, if_pos rfl, List.length_drop, resize_length (by omega),
      List.take_take, Nat.min_self]
    exact ⟨rfl, by omega⟩

/-- At the limit the buffer is full. -/
theorem filledTo_full {stream : List UInt8} (hlong : wsMaxFrameSize < stream.length) (cuts : List Nat) :
    Oversized (filledTo stream wsMaxFrameSize cuts) := by
  have hlength : (filledTo stream wsMaxFrameSize cuts).readBuf.length = wsMaxFrameSize := by
    unfold filledTo
    dsimp only
    rw [if_neg (by decide), List.length_take_of_le (Nat.le_of_lt hlong)]
  exact ⟨hlength.symm, Nat.le_of_eq hlength.symm⟩

/-- The next piece, as long as it fits. -/
theorem filledTo_read {stream : List UInt8} {p q : Nat} {qs : List Nat} (hpq : p < q)
    (hq : q ≤ stream.length) (hfits : q ≤ p + (if p = 0 then defaultBufSize else p)) :
    (filledTo stream p (q :: qs)).incoming.segs ≠ [] ∧
      (filledTo stream p (q :: qs)).read
        = (.ok (slice stream p q), { segs := cutSegs stream q qs, reset := false }) ∧
      (filledTo stream p (q :: qs)).received = stream.take q := by
  obtain ⟨hbuffered, hroom⟩ := filledTo_buf (by omega : p ≤ stream.length) (q :: qs)
  have hlength : (slice stream p q).length = q - p := slice_length hq
  have hne : slice stream p q ≠ [] := List.ne_nil_of_length_pos (by omega)
  have hsegs : cutSegs stream p (q :: qs)
      = { bytes := slice stream p q, spare := 0, nonempty := hne } :: cutSegs stream q qs := dif_neg hne
  have hpull : pull (vecLimit (if p = 0 then defaultBufSize else p)) (cutSegs stream p (q :: qs))
      = (slice stream p q, cutSegs stream q qs) := by
    rw [hsegs]
    refine pull_whole ?_
    show (slice stream p q).length ≤ vecLimit _ _
    have hpos : 0 < if p = 0 then defaultBufSize else p := by
      split
      · decide
      · omega
    rw [hlength]
    unfold vecLimit
    rw [if_neg (by omega)]
    show q - p ≤ (if p = 0 then defaultBufSize else p) + 0
    omega
  have hread : (filledTo stream p (q :: qs)).read
      = (.ok (slice stream p q), { segs := cutSegs stream q qs, reset := false }) := by
    unfold Reader.read Incoming.read Incoming.readUpTo
    rw [show (filledTo stream p (q :: qs)).filled = p from rfl, hroom,
      show (filledTo stream p (q :: qs)).incoming.segs = cutSegs stream p (q :: qs) from rfl, hpull, hsegs]
    rfl
  refine ⟨?_, hread, ?_⟩
  · show cutSegs stream p (q :: qs) ≠ []
    rw [hsegs]
    exact List.cons_ne_nil _ _
  · unfold Reader.received
    rw [hread, hbuffered]
    have hwhole : slice stream 0 p ++ slice stream p q = slice stream 0 q :=
      slice_append_slice (Nat.zero_le p) (by omega) hq
    exact hwhole

theorem fills_cons {size p q : Nat} {qs : List Nat} (h : fills size p (q :: qs) = true) :
    p < q ∧ q ≤ p + (if p = 0 then defaultBufSize else p) ∧ p < wsMaxFrameSize ∧ q < size ∧
      fills size q qs = true := by
  unfold fills at h
  simp only [Bool.and_eq_true, decide_eq_true_eq] at h
  exact ⟨h.1.1.1.1, h.1.1.1.2, h.1.1.2, h.1.2, h.2⟩

/-- Where the piece does not complete the frame, the buffer is full with it. -/
theorem filledTo_step {stream : List UInt8} (hsize : declaredSize stream = some stream.length)
    {p q : Nat} {qs : List Nat} (h : fills stream.length p [q] = true) :
    readerStep accepts (filledTo stream p (q :: qs)) = .inl (filledTo stream q qs) := by
  obtain ⟨hpq, hfits, hmax, hq, -⟩ := fills_cons h
  have hqle : q ≤ stream.length := Nat.le_of_lt hq
  obtain ⟨hsegs, hread, hreceived⟩ := @filledTo_read stream p q qs hpq hqle hfits
  have hlength : (stream.take q).length = q := List.length_take_of_le (by omega)
  have hwaits : tryParseFrame (stream.take q) = .ok none := by
    rw [← List.take_append_drop q stream, List.length_append, hlength] at hsize
    refine tryParseFrame_short hsize ?_
    rw [hlength, List.length_drop]
    omega
  have hbuf : p ≤ (filledTo stream p (q :: qs)).readBuf.length ∧
      0 < (filledTo stream p (q :: qs)).readBuf.length ∧
        (p ≠ 0 → (filledTo stream p (q :: qs)).readBuf.length = p) := by
    unfold filledTo
    dsimp only
    by_cases hzero : p = 0
    · rw [if_pos hzero, List.length_replicate]
      exact ⟨by omega, by decide, fun hne => absurd hzero hne⟩
    · rw [if_neg hzero, List.length_take_of_le (by omega)]
      exact ⟨Nat.le_refl _, by omega, fun _ => rfl⟩
  have hroom : ¬Oversized (filledTo stream p (q :: qs)) := by
    rintro ⟨hfull, hlarge⟩
    have hfull : p = (filledTo stream p (q :: qs)).readBuf.length := hfull
    omega
  rw [readerStep_waits accepts hbuf.1 hbuf.2.1 hroom hsegs (by rw [hreceived]; exact hwaits),
    hreceived, hread, hlength]
  unfold filledTo
  rw [if_neg (by omega : q ≠ 0)]

theorem fills_one {size p q : Nat} {qs : List Nat} (h : fills size p (q :: qs) = true) :
    fills size p [q] = true := by
  obtain ⟨hpq, hfits, hmax, hq, -⟩ := fills_cons h
  unfold fills
  simp only [Bool.and_eq_true, decide_eq_true_eq]
  exact ⟨⟨⟨⟨hpq, hfits⟩, hmax⟩, hq⟩, rfl⟩

/-- The reader comes to the last of the cuts. -/
theorem filledTo_reached {stream : List UInt8} (hsize : declaredSize stream = some stream.length) :
    ∀ (front : List Nat) (p q : Nat) (back : List Nat), fills stream.length p (front ++ [q]) = true →
      Reached accepts incoming (filledTo stream p (front ++ q :: back)) →
      Reached accepts incoming (filledTo stream q back) := by
  intro front
  induction front with
  | nil => exact fun p q back h hr => hr.step (filledTo_step hsize h)
  | cons x front ih =>
      intro p q back h hr
      obtain ⟨-, -, -, -, hrest⟩ := fills_cons h
      exact ih x q back hrest (hr.step (filledTo_step hsize (fills_one h)))

theorem fills_le_last {size m : Nat} :
    ∀ {qs : List Nat} {p : Nat}, fills size p qs = true → (p :: qs).getLast? = some m → p ≤ m := by
  intro qs
  induction qs with
  | nil =>
      intro p _ hlast
      cases hlast
      exact Nat.le_refl _
  | cons q qs ih =>
      intro p h hlast
      obtain ⟨hpq, -, -, -, hrest⟩ := fills_cons h
      rw [List.getLast?_cons_cons] at hlast
      have := ih hrest hlast
      omega

/-- The pieces are the stream from `p` on. -/
theorem pending_cutSegs {stream : List UInt8} :
    ∀ {qs : List Nat} {p : Nat}, p ≤ stream.length → fills stream.length p qs = true →
      pending (cutSegs stream p (qs ++ [stream.length])) = stream.drop p := by
  have hcons : ∀ p q qs, pending (cutSegs stream p (q :: qs))
      = slice stream p q ++ pending (cutSegs stream q qs) := by
    intro p q qs
    by_cases hnil : slice stream p q = []
    · have hsegs : cutSegs stream p (q :: qs) = cutSegs stream q qs := dif_pos hnil
      rw [hsegs, hnil, List.nil_append]
    · have hsegs : cutSegs stream p (q :: qs)
          = { bytes := slice stream p q, spare := 0, nonempty := hnil } :: cutSegs stream q qs := dif_neg hnil
      rw [hsegs]
      rfl
  intro qs
  induction qs with
  | nil =>
      intro p _ _
      rw [List.nil_append, hcons]
      unfold slice
      rw [List.take_length]
      exact List.append_nil _
  | cons q qs ih =>
      intro p hp h
      obtain ⟨hpq, -, -, hq, hrest⟩ := fills_cons h
      have hlength : (stream.take q).length = q := List.length_take_of_le (by omega)
      rw [List.cons_append, hcons, ih (by omega) hrest]
      unfold slice
      rw [← List.drop_append_of_le_length (by omega), List.take_append_drop]

/-! ### A frame behind the limit -/

/-- A text frame that is 14 bytes longer than the limit. -/
def bigFrame : Unsent where
  frame := { opcode := opcodeText, payload := List.replicate (2 ^ 20) 0x61 }
  key := [0x12, 0x34, 0x56, 0x78]
  known := by decide
  control := fun h => absurd h (by decide)
  sized := by
    rw [List.length_replicate]
    decide
  keyed := rfl

theorem bigFrame_length : bigFrame.bytes.length = 1048590 := by
  have hpayload : bigFrame.frame.payload.length = 1048576 := List.length_replicate
  have hkey : bigFrame.key.length = 4 := rfl
  unfold Unsent.bytes buildMaskedFrame
  dsimp only
  rw [hpayload, if_neg (by decide), if_neg (by decide), List.length_append, List.length_append,
    List.length_cons, List.length_cons, toBeBytes_length, hkey, List.length_mapIdx, hpayload]

theorem bigFrame_declares : declaredSize bigFrame.bytes = some bigFrame.bytes.length :=
  declaredSize_of_some bigFrame.parsed

/-- The reads that double the buffer up to 2^19 bytes. -/
def doubling : List Nat := [8192, 16384, 32768, 65536, 131072, 262144, 524288]

/-- The frame in reads of which the last but one stops a byte before the limit. -/
def inOddReads : Incoming :=
  { segs := cutSegs bigFrame.bytes 0 (doubling ++ 1048575 :: [1048590]), reset := false }

/-- The frame in reads of which the last but one stops at the limit. -/
def inEvenReads : Incoming :=
  { segs := cutSegs bigFrame.bytes 0 (doubling ++ 1048576 :: [1048590]), reset := false }

theorem inEvenReads_reached {r : Reader} (hr : Reached accepts inEvenReads r) :
    ∃ p qs, r = filledTo bigFrame.bytes p (qs ++ [bigFrame.bytes.length]) ∧
      fills bigFrame.bytes.length p qs = true ∧ (p :: qs).getLast? = some wsMaxFrameSize := by
  induction hr with
  | init =>
      refine ⟨0, doubling ++ [1048576], ?_, ?_, by decide⟩
      · rw [bigFrame_length]
        rfl
      · rw [bigFrame_length]
        decide
  | @step r r' hr hstep ih =>
      obtain ⟨p, qs, rfl, hfills, hlast⟩ := ih
      cases qs with
      | nil =>
          cases hlast
          exact absurd (filledTo_full (by rw [bigFrame_length]; decide) _) (not_oversized_of_step hstep)
      | cons q qs =>
          obtain ⟨-, -, -, -, hrest⟩ := fills_cons hfills
          rw [List.cons_append, filledTo_step bigFrame_declares (fills_one hfills)] at hstep
          cases hstep
          exact ⟨q, qs, rfl, hrest, hlast⟩

theorem inEvenReads_bytes : inEvenReads.bytes = bigFrame.bytes := by
  have hfills : fills bigFrame.bytes.length 0 (doubling ++ [1048576]) = true := by
    rw [bigFrame_length]
    decide
  have hpending := pending_cutSegs (Nat.zero_le _) hfills
  rw [List.drop_zero] at hpending
  refine Eq.trans ?_ hpending
  rw [bigFrame_length]
  rfl

theorem inEvenReads_inTime {r : Reader} (hr : Reached accepts inEvenReads r) :
    ReadsInTime inEvenReads.bytes r := by
  obtain ⟨p, qs, rfl, hfills, hlast⟩ := inEvenReads_reached hr
  have hp := fills_le_last hfills hlast
  have hmax : wsMaxFrameSize < bigFrame.bytes.length := by
    rw [bigFrame_length]
    decide
  rw [inEvenReads_bytes]
  constructor
  case stops =>
    intro hroom rest hb _
    have hrest := hb.length_le
    cases qs with
    | nil =>
        cases hlast
        exact absurd (filledTo_full hmax _) hroom
    | cons q qs =>
        obtain ⟨hpq, hfits, -, hq, hafter⟩ := fills_cons hfills
        have hq' := fills_le_last hafter (by rw [← hlast, List.getLast?_cons_cons])
        obtain ⟨-, hread, -⟩ := @filledTo_read bigFrame.bytes p q (qs ++ [bigFrame.bytes.length]) hpq
          (Nat.le_of_lt hq) hfits
        have hleft : (filledTo bigFrame.bytes p (q :: qs ++ [bigFrame.bytes.length])).read.2.bytes
            = bigFrame.bytes.drop q := by
          rw [List.cons_append, hread]
          exact pending_cutSegs (Nat.le_of_lt hq) hafter
        rw [hleft, List.length_drop]
        omega
  case goesOn =>
    intro hover _
    have hleft := pending_cutSegs (by omega : p ≤ bigFrame.bytes.length) hfills
    have hover : cutSegs bigFrame.bytes p (qs ++ [bigFrame.bytes.length]) = [] := hover
    rw [hover] at hleft
    have hlength := congrArg List.length hleft
    rw [List.length_drop, show (pending ([] : List (Segment UInt8))).length = 0 from rfl] at hlength
    omega

/-! ### The limit -/

/-- The limit is enforced in the run on a stream that is cut in some way. -/
structure LimitEnforced (accepts : Nat → Bool) (incoming : Incoming) : Prop where
  within : ∀ r, Reached accepts incoming r → ¬Oversized r → WithinLimit accepts r
  /-- also between the rounds the buffer holds no more than the limit of the frame in front -/
  buffered : ∀ r, Reached accepts incoming r → r.filled ≤ wsMaxFrameSize
  closed : ∀ r, Reached accepts incoming r → TooBig (r.buffered ++ r.incoming.bytes) →
    ClosedWith1009 (reader accepts incoming)

/--
**The frame size limit is enforced where the reads stop in time.**  In a run whose every
round meets the condition no frame that is handled is longer than the limit, the buffer
never holds more than that of one frame, and when the next frame of the stream declares
more the connection is closed with 1009.
-/
theorem limit_enforced (accepts : Nat → Bool) (incoming : Incoming)
    (hin : ∀ r, Reached accepts incoming r → ReadsInTime incoming.bytes r) :
    LimitEnforced accepts incoming where
  within := fun r hr hover => withinLimit_of_inTime (invariant_reached hr) hover (hin r hr)
  buffered := by
    intro r hr
    have hi := invariant_reached hr
    rw [← r.buffered_length hi.room]
    by_contra hlong
    have hbig := tooBig_of_waiting hi.waiting (by omega)
    cases hr with
    | init => exact hlong (Nat.zero_le _)
    | step hr hstep =>
        have hstops := (hin _ hr).stops (not_oversized_of_step hstep) _ hi.boundary (hbig.append _)
        have hincoming : r.incoming = (Reader.read _).2 := readerStep_incoming hstep
        rw [hincoming, List.length_append] at hstops
        omega
  closed := fun r hr => closed_of_tooBig hin _ r rfl hr

theorem limit_enforced_even : ClosedWith1009 (reader (fun _ => true) inEvenReads) := by
  refine (limit_enforced (fun _ => true) inEvenReads fun r hr => inEvenReads_inTime hr).closed _ .init ?_
  show TooBig ([] ++ inEvenReads.bytes)
  rw [List.nil_append, inEvenReads_bytes]
  exact ⟨_, bigFrame_declares, by rw [bigFrame_length]; decide⟩

/-- The buffer of 1048575 bytes is doubled, and the frame is whole after the next read and delivered. -/
theorem big_frame_delivered :
    (∃ r, Reached (fun _ => true) inOddReads r ∧
      tryParseFrame r.received = .ok (some (bigFrame.frame, 1048590)) ∧
      onFrame (fun _ => true) r.out bigFrame.frame
        = ([.send (RustStd.fromUtf8Lossy bigFrame.frame.payload)], none)) ∧
      ¬LimitEnforced (fun _ => true) inOddReads := by
  have hfills : fills bigFrame.bytes.length 0 (doubling ++ [1048575]) = true := by
    rw [bigFrame_length]
    decide
  have hreached : Reached (fun _ => true) inOddReads (filledTo bigFrame.bytes 1048575 [1048590]) :=
    filledTo_reached bigFrame_declares doubling 0 1048575 [1048590] hfills .init
  obtain ⟨-, -, hreceived⟩ := @filledTo_read bigFrame.bytes 1048575 1048590 [] (by decide)
    (Nat.le_of_eq bigFrame_length.symm) (by decide)
  have hparse : tryParseFrame (filledTo bigFrame.bytes 1048575 [1048590]).received
      = .ok (some (bigFrame.frame, 1048590)) := by
    have hparsed := bigFrame.parsed
    rw [bigFrame_length] at hparsed
    rw [hreceived, List.take_of_length_le (Nat.le_of_eq bigFrame_length)]
    exact hparsed
  refine ⟨⟨_, hreached, hparse, rfl⟩, fun henforced => ?_⟩
  have hroom : ¬Oversized (filledTo bigFrame.bytes 1048575 [1048590]) := by
    rintro ⟨hfull, hmax⟩
    have hfull : 1048575 = (filledTo bigFrame.bytes 1048575 [1048590]).readBuf.length := hfull
    rw [← hfull] at hmax
    exact absurd hmax (by decide)
  have hsize := (henforced.within _ hreached hroom).whole _ _ _ (.whole _) hparse
  exact absurd hsize (by decide)

end Mahalo.WsStreaming
