/-
What the two tasks at a WebSocket stream have sent, as the client reads it.

Both write one buffer after the other, and the client sees the buffers of both in some
order.  What holds of a task is that the buffers it has begun are those it has finished
and at most one more (`begun_step`).  The writer begins text frames and nothing else and
the reader no text frame, so the client can tell whose a frame is; and while the frames
stay whole, what it has read of a task is all but the buffer the task is at.
-/
import Mahalo.Proofs.Endpoint.WsSerialize
import Mahalo.Proofs.Endpoint.WsWire

namespace Mahalo.WsParse

/-! ### The client's reader on the beginning of a frame -/

theorem readLength_append {len7 : UInt8} {bs rest : List UInt8} {len : Nat}
    (h : readLength len7 bs = some (len, rest)) (ext : List UInt8) :
    readLength len7 (bs ++ ext) = some (len, rest ++ ext) := by
  unfold readLength at h ⊢
  split at h
  · rename_i hle
    cases h
    rw [if_pos hle]
  · rename_i hgt
    rw [if_neg hgt]
    split at h
    · rename_i h126
      rw [if_pos h126]
      split at h
      · cases h
      · rename_i hform
        obtain ⟨hlen, hvalue⟩ := not_or.mp hform
        cases h
        rw [List.take_append_of_le_length (by omega), List.drop_append_of_le_length (by omega),
          if_neg (not_or.mpr ⟨by rw [List.length_append]; omega, hvalue⟩)]
    · rename_i h126
      rw [if_neg h126]
      split at h
      · cases h
      · rename_i hform
        obtain ⟨hlen, hvalue⟩ := not_or.mp hform
        cases h
        rw [List.take_append_of_le_length (by omega), List.drop_append_of_le_length (by omega),
          if_neg (not_or.mpr ⟨by rw [List.length_append]; omega, hvalue⟩)]

/-- More bytes behind a frame do not change it. -/
theorem readFrame_append {bs rest : List UInt8} {frame : ServerFrame} (h : readFrame bs = some (frame, rest))
    (ext : List UInt8) : readFrame (bs ++ ext) = some (frame, rest ++ ext) := by
  rcases bs with _ | ⟨b0, _ | ⟨b1, bs⟩⟩
  · cases h
  · cases h
  · rw [List.cons_append, List.cons_append]
    rw [readFrame] at h ⊢
    by_cases hmask : b1 &&& 0x80 ≠ 0
    · rw [if_pos hmask] at h
      cases h
    · rw [if_neg hmask] at h ⊢
      obtain ⟨⟨len, behind⟩, hlength, hpayload⟩ := Option.bind_eq_some_iff.mp h
      rw [readLength_append hlength, Option.bind_some]
      dsimp only at hpayload ⊢
      by_cases hlen : behind.length < len
      · rw [if_pos hlen] at hpayload
        cases hpayload
      · rw [if_neg hlen] at hpayload
        cases hpayload
        rw [if_neg (by rw [List.length_append]; omega), List.take_append_of_le_length (by omega),
          List.drop_append_of_le_length (by omega)]

/-- A frame that is not there whole is not read. -/
theorem readFrame_begun {frame : UInt8 × List UInt8} (h : Serializable frame) {n : Nat}
    (hn : n < (serializeFrame frame.1 frame.2).length) :
    readFrame ((serializeFrame frame.1 frame.2).take n) = none := by
  by_contra hsome
  obtain ⟨⟨f, rest⟩, hread⟩ := Option.ne_none_iff_exists'.mp hsome
  have hmore := readFrame_append hread ((serializeFrame frame.1 frame.2).drop n)
  have hwhole := readFrame_serializeFrame h []
  rw [List.append_nil] at hwhole
  rw [List.take_append_drop, hwhole] at hmore
  have hrest := (Prod.mk.inj (Option.some.inj hmore)).2
  have hdrop := List.drop_eq_nil_iff.mp (List.append_eq_nil_iff.mp hrest.symm).2
  omega

/-- Whole frames, and the beginning of one. -/
theorem readFrames_begun (frames : List (UInt8 × List UInt8)) (h : ∀ frame ∈ frames, Serializable frame)
    {part : List UInt8} (hpart : readFrame part = none) :
    ∀ fuel, frames.length ≤ fuel →
      readFrames fuel ((frames.map fun frame => serializeFrame frame.1 frame.2).flatten ++ part)
        = (frames.map sent, part) := by
  induction frames with
  | nil =>
      intro fuel _
      cases fuel with
      | zero => rfl
      | succ fuel =>
          rw [List.map_nil, List.flatten_nil, List.nil_append, readFrames, hpart]
          rfl
  | cons frame rest ih =>
      intro fuel hfuel
      obtain ⟨fuel, rfl⟩ := Nat.exists_eq_succ_of_ne_zero (Nat.ne_zero_of_lt hfuel)
      have hrest := ih (fun f hf => h f (List.mem_cons_of_mem _ hf)) fuel (Nat.le_of_succ_le_succ hfuel)
      rw [List.map_cons, List.flatten_cons, List.append_assoc, Nat.succ_eq_add_one, readFrames,
        readFrame_serializeFrame (h frame (List.mem_cons_self ..))]
      dsimp only
      rw [hrest, List.map_cons]

end Mahalo.WsParse

namespace Mahalo.WsWire

open WsParse WsStreaming

/-! ### What the tasks begin to write -/

/-- The reply to a frame: its opcode and payload. -/
def replyFrame (f : WsFrame) : Option (UInt8 × List UInt8) :=
  if f.opcode = opcodeText ∨ f.opcode = opcodeBinary ∨ f.opcode = opcodePong then none
  else if f.opcode = opcodePing then some (opcodePong, f.payload)
  else if f.opcode = opcodeClose then some (opcodeClose, closePayload f.payload)
  else some (opcodeClose, toBeBytes 2 1002)

/-- The frame with which a turn has a task call `write_all`. -/
def begins : Task → Label → Option (UInt8 × List UInt8)
  | .writer, .message text => some (opcodeText, RustStd.asBytes text)
  | .reader, .frame f => replyFrame f
  | .reader, .invalid _ => some (opcodeClose, toBeBytes 2 1002 ++ protocolErrorReason)
  | .reader, .tooBig => some (opcodeClose, toBeBytes 2 1009 ++ messageTooBigReason)
  | _, _ => none

/-- The bytes of a frame. -/
def bytesOf (frame : UInt8 × List UInt8) : List UInt8 := serializeFrame frame.1 frame.2

/-- Only the writer writes text frames, and it writes no others. -/
def ofTask : Task → List UInt8 → Bool
  | .writer, b => b.head? == some (0x80 ||| opcodeText)
  | .reader, b => b.head? != some (0x80 ||| opcodeText)

/-- The buffers a task has begun to write, in order. -/
def Wire.begun (s : Wire) (task : Task) : List (List UInt8) :=
  s.finished.filter (ofTask task) ++ (s.phase task).unfinished.toList.map (·.buf)

/-- Whose buffer it is can be seen from it. -/
def Wire.Tagged (s : Wire) : Prop := ∀ task w, (s.phase task).unfinished = some w → ofTask task w.buf = true

theorem ofTask_other (task : Task) (b : List UInt8) : ofTask task.other b = !ofTask task b := by
  cases task with
  | writer => rfl
  | reader => exact (Bool.not_not _).symm

/-- The reader goes on as `replyFrame` says. -/
theorem reply_eq (s : Wire) (f : WsFrame) :
    ∃ last, s.reply (onFrame (fun _ => true) [] f)
      = match replyFrame f with
        | some frame => s.begin .reader (bytesOf frame) last
        | none => s := by
  unfold onFrame replyFrame
  by_cases htext : f.opcode = opcodeText
  · exact ⟨false, by rw [if_pos htext, if_pos (Or.inl htext)]; rfl⟩
  by_cases hbinary : f.opcode = opcodeBinary
  · exact ⟨false, by rw [if_neg htext, if_pos hbinary, if_pos (Or.inr (Or.inl hbinary))]; rfl⟩
  by_cases hping : f.opcode = opcodePing
  · have hpong : f.opcode ≠ opcodePong := by rw [hping]; decide
    exact ⟨false, by
      rw [if_neg htext, if_neg hbinary, if_pos hping, if_neg (not_or.mpr ⟨htext, not_or.mpr ⟨hbinary, hpong⟩⟩),
        if_pos hping]
      rfl⟩
  by_cases hpong : f.opcode = opcodePong
  · exact ⟨false, by
      rw [if_neg htext, if_neg hbinary, if_neg hping, if_pos hpong, if_pos (Or.inr (Or.inr hpong))]
      rfl⟩
  have hnone : ¬(f.opcode = opcodeText ∨ f.opcode = opcodeBinary ∨ f.opcode = opcodePong) :=
    not_or.mpr ⟨htext, not_or.mpr ⟨hbinary, hpong⟩⟩
  refine ⟨true, ?_⟩
  rw [if_neg htext, if_neg hbinary, if_neg hping, if_neg hpong, if_neg hnone, if_neg hping]
  by_cases hclose : f.opcode = opcodeClose
  · rw [if_pos hclose, if_pos hclose, closeReply_eq]
    rfl
  · rw [if_neg hclose, if_neg hclose]
    rfl

/-- A reply is one of the reader's frames. -/
theorem replyFrame_opcode {f : WsFrame} {frame : UInt8 × List UInt8} (h : replyFrame f = some frame) :
    frame.1 = opcodePong ∨ frame.1 = opcodeClose := by
  unfold replyFrame at h
  split at h
  · cases h
  · split at h
    · cases h
      exact Or.inl rfl
    · split at h
      · cases h
        exact Or.inr rfl
      · cases h
        exact Or.inr rfl

theorem ofTask_bytesOf {frame : UInt8 × List UInt8} (h : frame.1 = opcodePong ∨ frame.1 = opcodeClose) :
    ofTask .reader (bytesOf frame) = true := by
  rcases h with h | h
  · show (some (0x80 ||| frame.1) != some (0x80 ||| opcodeText)) = true
    rw [h]
    decide
  · show (some (0x80 ||| frame.1) != some (0x80 ||| opcodeText)) = true
    rw [h]
    decide

theorem ofTask_text (payload : List UInt8) : ofTask .writer (bytesOf (opcodeText, payload)) = true := by
  show (some (0x80 ||| opcodeText) == some (0x80 ||| opcodeText)) = true
  decide

/-! ### One turn -/

/-- A task that has nothing unfinished begins a buffer. -/
theorem begun_begin {s : Wire} {task : Task} (hidle : s.phase task = .idle) (buf : List UInt8) (last : Bool)
    (t : Task) : (s.begin task buf last).begun t = s.begun t ++ if t = task then [buf] else [] := by
  unfold Wire.begun Wire.begin
  rw [setPhase_finished]
  rcases task_cases task t with rfl | rfl
  · rw [phase_setPhase, hidle, if_pos rfl]
    simp [Phase.unfinished]
  · rw [phase_setPhase_other, if_neg (by cases task <;> decide), List.append_nil]

theorem tagged_begin {s : Wire} (ht : s.Tagged) {task : Task} {buf : List UInt8} (hbuf : ofTask task buf = true)
    (last : Bool) : (s.begin task buf last).Tagged := by
  intro t w hw
  unfold Wire.begin at hw
  rcases task_cases task t with rfl | rfl
  · rw [phase_setPhase] at hw
    cases hw
    exact hbuf
  · rw [phase_setPhase_other] at hw
    exact ht _ w hw

/-- A task goes on to a phase with the same buffer unfinished, or with none as before. -/
theorem begun_setPhase {s : Wire} (task : Task) {p : Phase} (wire : List UInt8)
    (hsame : p.unfinished.map (·.buf) = (s.phase task).unfinished.map (·.buf)) (t : Task) :
    ({ s with wire }.setPhase task p).begun t = s.begun t := by
  have hlist : ∀ o : Option Writing, o.toList.map (·.buf) = (o.map (·.buf)).toList := by
    intro o
    cases o <;> rfl
  unfold Wire.begun
  rw [setPhase_finished]
  rcases task_cases task t with rfl | rfl
  · rw [phase_setPhase, hlist, hsame, ← hlist]
  · rw [phase_setPhase_other]
    cases task <;> rfl

theorem tagged_setPhase {s : Wire} (ht : s.Tagged) (task : Task) {p : Phase} (wire : List UInt8)
    (hsame : ∀ w, p.unfinished = some w → ∃ w', (s.phase task).unfinished = some w' ∧ w.buf = w'.buf) :
    ({ s with wire }.setPhase task p).Tagged := by
  intro t w hw
  rcases task_cases task t with rfl | rfl
  · rw [phase_setPhase] at hw
    obtain ⟨w', hw', hbuf⟩ := hsame w hw
    rw [hbuf]
    exact ht _ w' hw'
  · rw [phase_setPhase_other] at hw
    refine ht task.other w ?_
    cases task <;> exact hw

/-- The stream has taken a buffer whole. -/
theorem begun_complete {s : Wire} (ht : s.Tagged) {task : Task} {w : Writing} {last : Bool}
    (hphase : s.phase task = .writing w last) {p : Phase} (hnone : p.unfinished = none) (wire : List UInt8)
    (t : Task) :
    ({ ({ s with wire }.setPhase task p) with finished := s.finished ++ [w.buf] } : Wire).begun t
      = s.begun t := by
  have hown : ofTask task w.buf = true := ht task w (by rw [hphase]; rfl)
  unfold Wire.begun
  rcases task_cases task t with rfl | rfl
  · have hdone : (({ ({ s with wire }.setPhase t p) with finished := s.finished ++ [w.buf] } :
        Wire).phase t).unfinished = none := by
      cases t <;> exact hnone
    rw [hdone, hphase]
    simp [List.filter_append, hown, Phase.unfinished]
  · have hother : ofTask task.other w.buf = false := by rw [ofTask_other, hown]; rfl
    have hphase' : ({ ({ s with wire }.setPhase task p) with finished := s.finished ++ [w.buf] } :
        Wire).phase task.other = s.phase task.other := by
      cases task <;> rfl
    rw [hphase', List.filter_append]
    simp [hother]

/-- A turn at the stream has the tasks begin what it says, and they begin nothing else. -/
theorem begun_step {s s' : Wire} {l : Label} (ht : s.Tagged) (h : step s l = some s') :
    s'.Tagged ∧ ∀ task, s'.begun task = s.begun task ++ (begins task l).toList.map bytesOf := by
  have hquiet : ∀ task, s.begun task = s.begun task ++ [] := fun _ => (List.append_nil _).symm
  have hreader : ∀ (frame : UInt8 × List UInt8) {last : Bool}, s.phase .reader = .idle →
      begins .reader l = some frame → begins .writer l = none →
      (frame.1 = opcodePong ∨ frame.1 = opcodeClose) →
      (s.begin .reader (bytesOf frame) last).Tagged ∧ ∀ task,
        (s.begin .reader (bytesOf frame) last).begun task
          = s.begun task ++ (begins task l).toList.map bytesOf := by
    intro frame last hidle hbegins hnot hop
    refine ⟨tagged_begin ht (ofTask_bytesOf hop) last, fun task => ?_⟩
    rw [begun_begin hidle]
    cases task with
    | writer => rw [hnot]; rfl
    | reader => rw [hbegins]; rfl
  cases l with
  | message text =>
      simp only [step] at h
      split at h
      · rename_i hidle
        cases h
        have hidle : s.phase .writer = .idle := hidle
        refine ⟨tagged_begin ht (ofTask_text _) false, fun task => ?_⟩
        rw [begun_begin hidle]
        cases task <;> rfl
      · cases h
  | frame f =>
      simp only [step] at h
      split at h
      · rename_i hidle
        cases h
        obtain ⟨last, hreply⟩ := reply_eq s f
        rw [hreply]
        cases hr : replyFrame f with
        | some frame => exact hreader frame hidle hr rfl (replyFrame_opcode hr)
        | none =>
            refine ⟨ht, fun task => ?_⟩
            cases task with
            | writer => exact hquiet _
            | reader =>
                show s.begun .reader = s.begun .reader ++ (replyFrame f).toList.map bytesOf
                rw [hr]
                exact hquiet _
      · cases h
  | invalid e =>
      simp only [step] at h
      split at h
      · rename_i hidle
        cases h
        exact hreader (opcodeClose, toBeBytes 2 1002 ++ protocolErrorReason) hidle rfl rfl
          (Or.inr rfl)
      · cases h
  | tooBig =>
      simp only [step] at h
      split at h
      · rename_i hidle
        cases h
        exact hreader (opcodeClose, toBeBytes 2 1009 ++ messageTooBigReason) hidle rfl rfl
          (Or.inr rfl)
      · cases h
  | hangup =>
      simp only [step] at h
      split at h
      · rename_i hidle
        cases h
        have hnone : (s.phase .reader).unfinished = none := by
          show s.reader.unfinished = none
          rw [hidle]
          rfl
        refine ⟨tagged_setPhase ht .reader s.wire (by intro w hw; cases hw), fun task => ?_⟩
        have hbegun := begun_setPhase (s := s) .reader (p := .returned) s.wire (by rw [hnone]; rfl) task
        rw [show (begins task .hangup) = none by cases task <;> rfl]
        exact hbegun.trans (hquiet _)
      · cases h
  | put task n =>
      have hbegins : ∀ t, begins t (.put task n) = none := by intro t; cases t <;> rfl
      simp only [step] at h
      split at h
      · rename_i w last hphase
        split at h
        · split at h
          · cases h
            have hnone : (if last then Phase.returned else .idle).unfinished = none := by cases last <;> rfl
            refine ⟨?_, fun t => ?_⟩
            · intro t w' hw'
              refine tagged_setPhase ht task (s.wire ++ (w.buf.drop w.written).take n)
                (p := if last then .returned else .idle) ?_ t w' ?_
              · intro w'' hw''
                rw [hnone] at hw''
                cases hw''
              · cases t <;> exact hw'
            · rw [begun_complete ht hphase hnone, hbegins]
              exact hquiet _
          · cases h
            refine ⟨tagged_setPhase ht task _ ?_, fun t => ?_⟩
            · intro w' hw'
              cases hw'
              exact ⟨w, by rw [hphase]; rfl, rfl⟩
            · rw [begun_setPhase task _ (by rw [hphase]; rfl), hbegins]
              exact hquiet _
        · cases h
      · cases h
  | fail task =>
      simp only [step] at h
      split at h
      · rename_i w last hphase
        cases h
        refine ⟨tagged_setPhase ht task s.wire ?_, fun t => ?_⟩
        · intro w' hw'
          cases hw'
          exact ⟨w, by rw [hphase]; rfl, rfl⟩
        · have hbegun := begun_setPhase (s := s) task (p := .broken w) s.wire (by rw [hphase]; rfl) t
          rw [show begins t (.fail task) = none by cases t <;> rfl]
          exact hbegun.trans (hquiet _)
      · cases h

/-! ### What the client has read -/

/-- The task a frame comes from, as the client sees it. -/
def fromTask : Task → ServerFrame → Bool
  | .writer, f => f.opcode == opcodeText
  | .reader, f => f.opcode != opcodeText

/-- Of the frames a task began to write the client has read all but one that is unfinished. -/
def Received (s : Wire) (task : Task) (frames : List ServerFrame) (begun : List (UInt8 × List UInt8)) : Prop :=
  match (s.phase task).unfinished with
  | none => frames = begun.map sent
  | some _ => ∃ frame, frames ++ [frame] = begun.map sent

/-- The frame a buffer holds. -/
def frameOf (b : List UInt8) : UInt8 × List UInt8 :=
  match readFrame b with
  | some (f, _) => (f.opcode, f.payload)
  | none => (0, [])

theorem frameOf_bytesOf {frame : UInt8 × List UInt8} (h : Serializable frame) :
    frameOf (bytesOf frame) = frame := by
  have hread := readFrame_serializeFrame h []
  rw [List.append_nil] at hread
  unfold frameOf bytesOf
  rw [hread]
  rfl

/-- The frames of some buffers, as the client sees them. -/
theorem map_sent_frameOf {frames : List (UInt8 × List UInt8)} (h : ∀ frame ∈ frames, Serializable frame) :
    (frames.map bytesOf).map (fun b => sent (frameOf b)) = frames.map sent := by
  rw [List.map_map]
  exact List.map_congr_left fun frame hframe => congrArg sent (frameOf_bytesOf (h frame hframe))

/-- Buffers that all hold frames. -/
theorem exists_frames {bs : List (List UInt8)} (h : ∀ b ∈ bs, ∃ frame, Serializable frame ∧ bytesOf frame = b) :
    ∃ frames : List (UInt8 × List UInt8),
      (∀ frame ∈ frames, Serializable frame) ∧ frames.map bytesOf = bs := by
  refine ⟨bs.map frameOf, ?_, ?_⟩
  · intro frame hframe
    obtain ⟨b, hb, rfl⟩ := List.mem_map.mp hframe
    obtain ⟨frame, hserial, rfl⟩ := h b hb
    rw [frameOf_bytesOf hserial]
    exact hserial
  · rw [List.map_map]
    refine (List.map_congr_left fun b hb => ?_).trans (List.map_id bs)
    obtain ⟨frame, hserial, rfl⟩ := h b hb
    exact congrArg bytesOf (frameOf_bytesOf hserial)

theorem length_le_bytes (frames : List (UInt8 × List UInt8)) :
    frames.length ≤ (frames.map bytesOf).flatten.length := by
  induction frames with
  | nil => exact Nat.le_refl _
  | cons frame rest ih =>
      have hlen : 2 ≤ (bytesOf frame).length := serializeFrame_length frame.1 frame.2
      rw [List.map_cons, List.flatten_cons, List.length_append, List.length_cons]
      omega

theorem text_head (opcode : UInt8) : opcode < 16 →
    (((some (0x80 ||| opcode) : Option UInt8) == some (0x80 ||| opcodeText)) = (opcode == opcodeText)) :=
  forall_byte (P := fun opcode => opcode < 16 →
    (((some (0x80 ||| opcode) : Option UInt8) == some (0x80 ||| opcodeText)) = (opcode == opcodeText)))
    (by decide +kernel) opcode

theorem fromTask_sent {frame : UInt8 × List UInt8} (h : Serializable frame) (task : Task) :
    fromTask task (sent frame) = ofTask task (bytesOf frame) := by
  have hhead := text_head frame.1 h.opcode
  cases task with
  | writer => exact hhead.symm
  | reader => exact congrArg (! ·) hhead.symm

/-- The frames of a task are those it has finished. -/
theorem filter_sent {frames : List (UInt8 × List UInt8)} (h : ∀ frame ∈ frames, Serializable frame)
    (task : Task) :
    (frames.map sent).filter (fromTask task)
      = ((frames.map bytesOf).filter (ofTask task)).map fun b => sent (frameOf b) := by
  rw [List.filter_map, List.filter_map, List.map_map]
  have hsame : frames.filter (fromTask task ∘ sent) = frames.filter (ofTask task ∘ bytesOf) :=
    List.filter_congr fun frame hframe => fromTask_sent (h frame hframe) task
  rw [hsame]
  refine List.map_congr_left fun frame hframe => ?_
  exact congrArg sent (frameOf_bytesOf (h frame (List.mem_filter.mp hframe).1)).symm

section

variable {s : Wire} {begun : Task → List (UInt8 × List UInt8)}
  (hserial : ∀ task, ∀ frame ∈ begun task, Serializable frame)
  (hbegun : ∀ task, s.begun task = (begun task).map bytesOf)

include hserial hbegun

theorem begun_frame {task : Task} {b : List UInt8} (hb : b ∈ s.begun task) :
    ∃ frame, Serializable frame ∧ bytesOf frame = b := by
  rw [hbegun] at hb
  obtain ⟨frame, hmem, hbytes⟩ := List.mem_map.mp hb
  exact ⟨frame, hserial task frame hmem, hbytes⟩

theorem finished_frame {b : List UInt8} (hb : b ∈ s.finished) :
    ∃ frame, Serializable frame ∧ bytesOf frame = b := by
  have hmine : ∀ task, ofTask task b = true → b ∈ s.begun task := fun task hown =>
    List.mem_append_left _ (List.mem_filter.mpr ⟨hb, hown⟩)
  cases hwho : ofTask .writer b with
  | true => exact begun_frame hserial hbegun (hmine .writer hwho)
  | false =>
      refine begun_frame hserial hbegun (hmine .reader ?_)
      have hother := ofTask_other .writer b
      rw [hwho] at hother
      exact hother

/-- The wire is read as whole frames and the beginning of one, and each task's are its own in order. -/
theorem received_of_whole (hw : Whole s) :
    ∃ frames part, readFrames s.wire.length s.wire = (frames, part) ∧
      (∀ task, Received s task (frames.filter (fromTask task)) (begun task)) ∧
      ((∀ task, (s.phase task).unfinished = none) → part = []) := by
  obtain ⟨frames, hframes, hbytes⟩ := exists_frames fun b hb => finished_frame hserial hbegun hb
  obtain ⟨task, hquiet⟩ : ∃ task : Task, ¬s.Partly task.other := by
    by_cases hreader : s.Partly .reader
    · exact ⟨.reader, hw.single .reader hreader⟩
    · exact ⟨.writer, hreader⟩
  have hwire := hw.wire task hquiet
  have hpart : readFrame (s.phase task).part = none := by
    unfold Phase.part
    cases hu : (s.phase task).unfinished with
    | none => rfl
    | some w =>
        obtain ⟨-, hlt⟩ := hw.begun task w hu
        have hmem : w.buf ∈ s.begun task :=
          List.mem_append_right _ (by rw [hu]; exact List.mem_singleton_self _)
        obtain ⟨frame, hs, hbuf⟩ := begun_frame hserial hbegun hmem
        show readFrame (w.buf.take w.written) = none
        rw [← hbuf] at hlt ⊢
        exact readFrame_begun hs hlt
  have hfuel : frames.length ≤ s.wire.length := by
    have hlen := length_le_bytes frames
    rw [hbytes] at hlen
    rw [hwire, List.length_append]
    omega
  have hread := readFrames_begun frames hframes hpart s.wire.length hfuel
  have hstream : (frames.map fun frame => serializeFrame frame.1 frame.2).flatten = s.finished.flatten :=
    congrArg List.flatten hbytes
  rw [hstream, ← hwire] at hread
  refine ⟨frames.map sent, (s.phase task).part, hread, ?_, fun hnone => part_none (hnone task)⟩
  intro t
  have hall := congrArg (List.map fun b => sent (frameOf b)) (hbegun t)
  rw [map_sent_frameOf (hserial t), Wire.begun, List.map_append, ← hbytes, ← filter_sent hframes] at hall
  unfold Received
  cases hu : (s.phase t).unfinished with
  | none =>
      rw [hu] at hall
      rw [← hall]
      exact (List.append_nil _).symm
  | some w =>
      rw [hu] at hall
      exact ⟨sent (frameOf w.buf), hall⟩

end

end Mahalo.WsWire
