/-
When the frames two tasks write to one stream stay whole.

Nothing in the source keeps a task from writing while the other's `write_all` is
under way, so the client can receive one frame inside another: `torn` is such a
run.  The frames stay whole in every run in which no task writes while a frame of
the other is partly on the wire.  The invariant is that at most one of the two
begun buffers has bytes on the wire, and that those bytes are its end.
-/
import Mahalo.Endpoint.WsWire
import Mahalo.Proofs.Endpoint.WsParse

namespace Mahalo.WsWire

open WsParse WsStreaming

/-- A complete frame as `serialize_frame` produces it. -/
def IsFrame (b : List UInt8) : Prop := ∃ opcode payload, b = serializeFrame opcode payload

/-- The part of a task's begun buffer that is on the wire. -/
def Phase.part (p : Phase) : List UInt8 :=
  match p.unfinished with
  | some w => w.sofar
  | none => []

/-- A frame of the task is partly on the wire. -/
def Wire.Partly (s : Wire) (task : Task) : Prop := (s.phase task).part ≠ []

/-- A task writes only while no frame of the other is partly on the wire. -/
def Alternates (s : Wire) : Label → Prop
  | .put task _ => ¬s.Partly task.other
  | _ => True

/-! ### The state record -/

@[simp] theorem phase_setPhase (s : Wire) (task : Task) (p : Phase) :
    (s.setPhase task p).phase task = p := by
  cases task <;> rfl

@[simp] theorem phase_setPhase_other (s : Wire) (task : Task) (p : Phase) :
    (s.setPhase task p).phase task.other = s.phase task.other := by
  cases task <;> rfl

@[simp] theorem setPhase_wire (s : Wire) (task : Task) (p : Phase) :
    (s.setPhase task p).wire = s.wire := by
  cases task <;> rfl

@[simp] theorem setPhase_finished (s : Wire) (task : Task) (p : Phase) :
    (s.setPhase task p).finished = s.finished := by
  cases task <;> rfl

/-! ### What one turn can do -/

theorem serializeFrame_length (opcode : UInt8) (payload : List UInt8) :
    2 ≤ (serializeFrame opcode payload).length := by
  unfold serializeFrame
  simp only
  rw [List.length_append, List.length_cons]
  split
  · simp
  · split <;> · simp only [List.length_cons]; omega

theorem IsFrame.pos {b : List UInt8} (h : IsFrame b) : 0 < b.length := by
  obtain ⟨opcode, payload, rfl⟩ := h
  have := serializeFrame_length opcode payload
  omega

/-- The reader replies with a pong, or with a frame after which it returns. -/
theorem onFrame_write {f : WsFrame} {buf : List UInt8} {stop : Option Stop}
    (h : onFrame (fun _ => true) [] f = ([.write buf], stop)) :
    (∃ payload, buf = serializeFrame opcodePong payload) ∨ (IsFrame buf ∧ stop.isSome = true) := by
  unfold onFrame at h
  split at h
  · cases h
  · split at h
    · cases h
    · split at h
      · cases h
        exact Or.inl ⟨_, rfl⟩
      · split at h
        · cases h
        · refine Or.inr ?_
          split at h
          · cases h
            unfold closeReply
            exact ⟨by split <;> exact ⟨_, _, rfl⟩, rfl⟩
          · cases h
            exact ⟨⟨_, _, rfl⟩, rfl⟩

/-- Every reply of the reader is a frame. -/
theorem onFrame_reply {f : WsFrame} {buf : List UInt8} {stop : Option Stop}
    (h : onFrame (fun _ => true) [] f = ([.write buf], stop)) : IsFrame buf := by
  obtain ⟨payload, rfl⟩ | ⟨hframe, -⟩ := onFrame_write h
  · exact ⟨_, _, rfl⟩
  · exact hframe

/-- The turns of a task, told apart by what they do to its phase and to the wire. -/
inductive Turn (s : Wire) : Label → Wire → Prop
  | begin {l : Label} (task : Task) (buf : List UInt8) (last : Bool) :
      s.phase task = .idle → IsFrame buf → Turn s l (s.begin task buf last)
  | quiet {l : Label} : Turn s l s
  | hangup {l : Label} (task : Task) :
      s.phase task = .idle → Turn s l (s.setPhase task .returned)
  | progress (task : Task) (n : Nat) (w : Writing) (last : Bool) :
      s.phase task = .writing w last → w.written + n < w.buf.length →
      Turn s (.put task n)
        ({ s with wire := s.wire ++ (w.buf.drop w.written).take n }.setPhase task
          (.writing { w with written := w.written + n } last))
  | complete (task : Task) (n : Nat) (w : Writing) (p : Phase) (last : Bool) :
      s.phase task = .writing w last → w.written + n = w.buf.length → p.unfinished = none →
      Turn s (.put task n)
        { ({ s with wire := s.wire ++ (w.buf.drop w.written).take n }.setPhase task p) with
          finished := s.finished ++ [w.buf] }
  | broken (task : Task) (w : Writing) (last : Bool) :
      s.phase task = .writing w last → Turn s (.fail task) (s.setPhase task (.broken w))

theorem turn_reply {s : Wire} {l : Label} (hidle : s.reader = .idle) :
    ∀ r : List ReaderEvent × Option Stop, (∀ buf stop, r = ([.write buf], stop) → IsFrame buf) →
      Turn s l (s.reply r) := by
  rintro ⟨events, stop⟩ hframe
  rcases events with _ | ⟨e, _ | ⟨e', rest⟩⟩
  · exact .quiet
  · cases e with
    | send text => exact .quiet
    | write buf => exact .begin .reader buf stop.isSome hidle (hframe buf stop rfl)
  · cases e <;> exact .quiet

theorem step_turn {s s' : Wire} {l : Label} (h : step s l = some s') : Turn s l s' := by
  cases l with
  | message text =>
      simp only [step] at h
      split at h
      · rename_i hidle
        cases h
        exact .begin .writer _ _ hidle ⟨_, _, rfl⟩
      · cases h
  | frame f =>
      simp only [step] at h
      split at h
      · rename_i hidle
        cases h
        exact turn_reply hidle _ fun _ _ hr => onFrame_reply hr
      · cases h
  | invalid e =>
      simp only [step] at h
      split at h
      · rename_i hidle
        cases h
        refine turn_reply hidle _ ?_
        intro buf stop hr
        cases hr
        exact ⟨_, _, rfl⟩
      · cases h
  | tooBig =>
      simp only [step] at h
      split at h
      · rename_i hidle
        cases h
        exact .begin .reader _ _ hidle ⟨_, _, rfl⟩
      · cases h
  | hangup =>
      simp only [step] at h
      split at h
      · rename_i hidle
        cases h
        exact .hangup .reader hidle
      · cases h
  | put task n =>
      simp only [step] at h
      split at h
      · rename_i w last hphase
        split at h
        · split at h
          · rename_i hfull
            cases h
            exact .complete task n w _ last hphase hfull (by cases last <;> rfl)
          · cases h
            exact .progress task n w last hphase (by omega)
        · cases h
      · cases h
  | fail task =>
      simp only [step] at h
      split at h
      · rename_i w last hphase
        cases h
        exact .broken task w last hphase
      · cases h

/-! ### The invariant -/

/-- The wire holds the finished frames, then the beginning of at most one more. -/
structure Whole (s : Wire) : Prop where
  finished : ∀ b ∈ s.finished, IsFrame b
  begun : ∀ task w, (s.phase task).unfinished = some w → IsFrame w.buf ∧ w.written < w.buf.length
  wire : ∀ task, ¬s.Partly task.other → s.wire = s.finished.flatten ++ (s.phase task).part
  single : ∀ task, s.Partly task → ¬s.Partly task.other

theorem part_none {p : Phase} (h : p.unfinished = none) : p.part = [] := by
  unfold Phase.part
  rw [h]

theorem task_cases (task t : Task) : t = task ∨ t = task.other := by
  cases task <;> cases t <;> decide

theorem other_other (task : Task) : task.other.other = task := by
  cases task <;> rfl

/-- A turn that changes no part on the wire and begins at most a frame keeps the invariant. -/
theorem whole_setPhase {s : Wire} (hw : Whole s) (task : Task) {p : Phase}
    (hpart : p.part = (s.phase task).part)
    (hbegun : ∀ w, p.unfinished = some w → IsFrame w.buf ∧ w.written < w.buf.length) :
    Whole (s.setPhase task p) := by
  have hparts : ∀ t, ((s.setPhase task p).phase t).part = (s.phase t).part := by
    intro t
    rcases task_cases task t with rfl | rfl
    · rw [phase_setPhase, hpart]
    · rw [phase_setPhase_other]
  refine ⟨?_, ?_, ?_, ?_⟩
  · rw [setPhase_finished]; exact hw.finished
  · intro t w ht
    rcases task_cases task t with rfl | rfl
    · rw [phase_setPhase] at ht
      exact hbegun w ht
    · rw [phase_setPhase_other] at ht
      exact hw.begun _ w ht
  · intro t ht
    rw [setPhase_wire, setPhase_finished, hparts]
    refine hw.wire t ?_
    unfold Wire.Partly at ht ⊢
    rw [hparts] at ht
    exact ht
  · intro t
    unfold Wire.Partly
    rw [hparts, hparts]
    exact hw.single t

theorem take_add_drop (buf : List UInt8) (i n : Nat) :
    buf.take i ++ (buf.drop i).take n = buf.take (i + n) := List.take_add.symm

section

variable {s : Wire} {task : Task} {w : Writing} {last : Bool}

/-- While the other task has nothing on the wire, the wire ends with what this one has written. -/
theorem wire_writing (hw : Whole s) (hphase : s.phase task = .writing w last)
    (hother : ¬s.Partly task.other) : s.wire = s.finished.flatten ++ w.buf.take w.written := by
  rw [hw.wire task hother, hphase]
  rfl

/-- More of the buffer is on the wire, and the wire ends with it. -/
theorem whole_progress (hw : Whole s) (hphase : s.phase task = .writing w last)
    (hother : ¬s.Partly task.other) {n : Nat} (hmore : w.written + n < w.buf.length) :
    Whole ({ s with wire := s.wire ++ (w.buf.drop w.written).take n }.setPhase task
      (.writing { w with written := w.written + n } last)) := by
  have hbegun := hw.begun task w (by rw [hphase]; rfl)
  have hwire := wire_writing hw hphase hother
  have hquiet : (s.phase task.other).part = [] := not_not.mp hother
  have hothers : ∀ (wire : List UInt8) (p : Phase),
      (({ s with wire }.setPhase task p).phase task.other).part = [] := by
    intro wire p
    rw [phase_setPhase_other]
    cases task <;> exact hquiet
  refine ⟨?_, ?_, ?_, ?_⟩
  · rw [setPhase_finished]; exact hw.finished
  · intro t w' ht
    rcases task_cases task t with rfl | rfl
    · rw [phase_setPhase] at ht
      cases ht
      exact ⟨hbegun.1, hmore⟩
    · rw [phase_setPhase_other] at ht
      refine hw.begun task.other w' ?_
      cases task <;> exact ht
  · intro t ht
    rw [setPhase_wire, setPhase_finished]
    rcases task_cases task t with rfl | rfl
    · rw [phase_setPhase]
      show s.wire ++ _ = s.finished.flatten ++ w.buf.take (w.written + n)
      rw [hwire, List.append_assoc, take_add_drop]
    · unfold Wire.Partly at ht
      rw [other_other, phase_setPhase, not_not] at ht
      have hlen : (w.buf.take (w.written + n)).length = 0 := by
        rw [show w.buf.take (w.written + n) = [] from ht]; rfl
      rw [List.length_take] at hlen
      have hzero : w.written + n = 0 := by omega
      rw [hothers, List.append_nil]
      show s.wire ++ (w.buf.drop w.written).take n = s.finished.flatten
      rw [hwire, List.append_assoc, take_add_drop, hzero, List.take_zero, List.append_nil]
  · intro t ht
    rcases task_cases task t with rfl | rfl
    · exact not_not.mpr (hothers _ _)
    · exact absurd (hothers _ _) ht

/-- The buffer is on the wire whole, and neither task has a part of another there. -/
theorem whole_complete (hw : Whole s) (hphase : s.phase task = .writing w last)
    (hother : ¬s.Partly task.other) {n : Nat} (hfull : w.written + n = w.buf.length) {p : Phase}
    (hnone : p.unfinished = none) :
    Whole { ({ s with wire := s.wire ++ (w.buf.drop w.written).take n }.setPhase task p) with
      finished := s.finished ++ [w.buf] } := by
  have hbegun := hw.begun task w (by rw [hphase]; rfl)
  have hwire := wire_writing hw hphase hother
  have hquiet : (s.phase task.other).part = [] := not_not.mp hother
  have hparts : ∀ (wire : List UInt8) (finished : List (List UInt8)) (t : Task),
      (({ { s with wire }.setPhase task p with finished } : Wire).phase t).part = [] := by
    intro wire finished t
    rcases task_cases task t with rfl | rfl
    · cases t <;> exact part_none hnone
    · cases task <;> exact hquiet
  refine ⟨?_, ?_, ?_, ?_⟩
  · intro b hb
    rcases List.mem_append.mp hb with hb | hb
    · exact hw.finished b hb
    · rw [List.mem_singleton.mp hb]
      exact hbegun.1
  · intro t w' ht
    rcases task_cases task t with rfl | rfl
    · have : p.unfinished = some w' := by cases t <;> exact ht
      rw [hnone] at this
      cases this
    · refine hw.begun task.other w' ?_
      cases task <;> exact ht
  · intro t _
    rw [hparts, List.append_nil]
    show _ = (s.finished ++ [w.buf]).flatten
    rw [List.flatten_append, List.flatten_singleton]
    have : ({ s with wire := s.wire ++ (w.buf.drop w.written).take n }.setPhase task p).wire
        = s.finished.flatten ++ w.buf.take (w.written + n) := by
      rw [setPhase_wire]
      show s.wire ++ _ = _
      rw [hwire, List.append_assoc, take_add_drop]
    rw [hfull, List.take_length] at this
    exact this
  · intro t ht
    exact absurd (hparts _ _ t) ht

end

/-- One turn keeps the invariant if the task whose turn it is does not cut into a frame. -/
theorem whole_step {s s' : Wire} {l : Label} (hw : Whole s) (halt : Alternates s l)
    (h : step s l = some s') : Whole s' := by
  cases step_turn h with
  | begin task buf last hidle hframe =>
      refine whole_setPhase hw task ?_ ?_
      · rw [hidle]; rfl
      · rintro w hw'
        cases hw'
        exact ⟨hframe, hframe.pos⟩
  | quiet => exact hw
  | hangup task hidle =>
      refine whole_setPhase hw task ?_ ?_
      · rw [hidle]; rfl
      · intro w hw'; cases hw'
  | broken task w last hphase =>
      refine whole_setPhase hw task ?_ ?_
      · rw [hphase]; rfl
      · intro w' hw'
        cases hw'
        exact hw.begun task w (by rw [hphase]; rfl)
  | progress task n w last hphase hmore => exact whole_progress hw hphase halt hmore
  | complete task n w p last hphase hfull hnone => exact whole_complete hw hphase halt hfull hnone

theorem whole_init : Whole system.init where
  finished := by intro b hb; cases hb
  begun := by intro task w h; cases task <;> cases h
  wire := by intro task _; cases task <;> rfl
  single := by intro task h; cases task <;> exact absurd rfl h

/--
**Frames are not torn while the tasks take turns.**  In every schedule in which
no task writes while a frame of the other is partly on the wire, what the client
has received is the finished frames one after the other, and then the beginning
of at most one frame that is still being written.
-/
theorem frames_whole {labels : List Label} {s : Wire} (halt : system.Along Alternates system.init labels)
    (h : system.exec system.init labels = some s) :
    (∀ b ∈ s.finished, IsFrame b) ∧
    ∃ part, s.wire = s.finished.flatten ++ part ∧
      (part = [] ∨ ∃ task w, (s.phase task).unfinished = some w ∧ IsFrame w.buf ∧
        w.written < w.buf.length ∧ part = w.buf.take w.written) := by
  have hw : Whole s := Lts.exec_invariant_along (I := Whole) whole_init
    (fun _ _ _ hI hP hs => whole_step hI hP hs) halt h
  refine ⟨hw.finished, ?_⟩
  by_cases hreader : s.Partly .reader
  · refine ⟨(s.phase .reader).part, hw.wire .reader (hw.single .reader hreader), Or.inr ⟨.reader, ?_⟩⟩
    cases hu : (s.phase .reader).unfinished with
    | none => exact absurd (part_none hu) hreader
    | some w =>
        obtain ⟨hframe, hlt⟩ := hw.begun .reader w hu
        refine ⟨w, rfl, hframe, hlt, ?_⟩
        unfold Phase.part
        rw [hu]
        rfl
  · refine ⟨(s.phase .writer).part, hw.wire .writer hreader, ?_⟩
    cases hu : (s.phase .writer).unfinished with
    | none => exact Or.inl (part_none hu)
    | some w =>
        obtain ⟨hframe, hlt⟩ := hw.begun .writer w hu
        refine Or.inr ⟨.writer, w, hu, hframe, hlt, ?_⟩
        unfold Phase.part
        rw [hu]
        rfl

/-- A message in one piece between two pieces of nothing else, and a PING answered after it. -/
def alternating : List Label :=
  [.message "hi", .put .writer 1, .put .writer 3,
    .frame { opcode := opcodePing, payload := [] }, .put .reader 1]

theorem frames_whole_alternating :
    ∃ s, system.exec system.init alternating = some s ∧
      s.wire = [0x81, 2, 0x68, 0x69, 0x8a] ∧ s.finished = [[0x81, 2, 0x68, 0x69]] ∧
      ∃ part, s.wire = s.finished.flatten ++ part := by
  refine ⟨_, rfl, by decide, by decide, ?_⟩
  have halt : system.Along Alternates system.init alternating := by
    refine ⟨trivial, ?_⟩
    rintro s1 h1
    cases h1
    refine ⟨not_not.mpr rfl, ?_⟩
    rintro s2 h2
    cases h2
    refine ⟨not_not.mpr rfl, ?_⟩
    rintro s3 h3
    cases h3
    refine ⟨trivial, ?_⟩
    rintro s4 h4
    cases h4
    exact ⟨not_not.mpr rfl, fun _ _ => trivial⟩
  obtain ⟨-, part, hwire, -⟩ := frames_whole halt rfl
  exact ⟨part, hwire⟩

/-- The writer is held up after one byte, and the reader answers a PING meanwhile. -/
def torn : List Label :=
  [.message "hi", .put .writer 1, .frame { opcode := opcodePing, payload := [] }, .put .reader 2,
    .put .writer 3]

/-- The length byte of a frame has no mask bit. -/
theorem serializeFrame_second (opcode : UInt8) (payload : List UInt8) :
    (serializeFrame opcode payload).getD 1 0 < 128 := by
  unfold serializeFrame
  simp only
  split
  · rename_i hlen
    show UInt8.ofNat payload.length < 128
    rw [UInt8.lt_iff_toNat_lt, UInt8.toNat_ofNat']
    show payload.length % 256 < 128
    omega
  · split
    · exact (by decide : (126 : UInt8) < 128)
    · exact (by decide : (127 : UInt8) < 128)

/-- Both tasks have finished, and the client has received no sequence of frames. -/
theorem torn_on_the_wire :
    ∃ s, system.exec system.init torn = some s ∧ s.writer = .idle ∧ s.reader = .idle ∧
      s.wire = [0x81, 0x8a, 0, 2, 0x68, 0x69] ∧
      ∀ frames : List (List UInt8), (∀ b ∈ frames, IsFrame b) → s.wire ≠ frames.flatten := by
  refine ⟨_, rfl, rfl, rfl, by decide, ?_⟩
  intro frames hframes hwire
  rcases frames with _ | ⟨b, rest⟩
  · exact absurd hwire (by decide)
  · obtain ⟨opcode, payload, rfl⟩ := hframes b (List.mem_cons_self ..)
    have hlen := serializeFrame_length opcode payload
    have hsecond := serializeFrame_second opcode payload
    rw [List.flatten_cons] at hwire
    have hget := congrArg (·.getD 1 0) hwire
    simp only at hget
    rw [getD_append _ (by omega)] at hget
    rw [← hget] at hsecond
    exact absurd hsecond (by decide)

end Mahalo.WsWire
