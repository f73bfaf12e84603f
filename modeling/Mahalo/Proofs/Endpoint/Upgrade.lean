/-
The switch from HTTP to WebSocket.

Of a stream, the HTTP phase drains the requests up to the upgrade request, and what a
drain of the whole stream would leave is for the WebSocket phase.  Both paths drop the
buffer they found the upgrade request in, with all that had been read behind it, and
`ws_streaming_loop` starts with an empty one.  So nothing is lost if and only if no read
went behind the upgrade request.
-/
import Mahalo.Proofs.Endpoint.Accum
import Mahalo.Proofs.Endpoint.Handshake
import Mathlib.Logic.Relation

namespace Mahalo.Endpoint

open HttpParse Segments

variable {A Ω : Type} {srv : Server A Ω} {outside : Outside Ω} {buffers : Buffers}

/-! ### The accumulation buffer -/

/-- A parse loop that comes to the upgrade request stops as a drain of the stream does. -/
theorem parseLoop_upgrade (hlib : Incremental srv.lib) (ext : List UInt8) {out' : Log A} {unread : List UInt8} :
    ∀ (fuel : Nat) (a : Accum) (out : Log A), a.filled ≤ a.buf.length →
      srv.parseLoop outside fuel a out = .stop out' .webSocketUpgrade unread →
      Framing.drain srv.parser (srv.handler outside) out (a.contents ++ ext)
        = .stop out' .webSocketUpgrade (unread ++ ext) := by
  intro fuel
  induction fuel with
  | zero =>
      intro a out _ h
      cases h
  | succ fuel ih =>
      intro a out hroom h
      cases hp : srv.tryParse a.contents with
      | error e =>
          rw [parseLoop_error hp] at h
          cases h
      | ok found =>
          rcases found with _ | parsed
          · rw [parseLoop_incomplete hp] at h
            obtain ⟨-, hmake⟩ | ⟨-, ⟨-, hmake⟩ | ⟨-, -, ⟨-, hmake⟩ | ⟨-, hmake⟩⟩⟩ := makeRoom_cases srv a out <;>
              rw [hmake] at h <;> cases h
          · have hstable : Framing.Stable srv.parser := parser_stable hlib
            have hcons := (tryParse_some hlib hp).2
            have hdrop : (a.contents ++ ext).drop parsed.bytesConsumed
                = a.contents.drop parsed.bytesConsumed ++ ext := List.drop_append_of_le_length hcons
            have hfront := hstable.some_append ext (parser_some hp)
            rw [a.contents_length hroom] at hcons
            rcases hx : srv.executeAndRespond outside out parsed with ⟨out1, _ | stop⟩
            · rw [parseLoop_answered hp hx] at h
              rw [Framing.drain_frame hstable hfront (h := srv.handler outside) hx, hdrop,
                ← shift_contents hroom hcons]
              split_ifs at h
              refine ih _ out1 ?_ h
              rw [shift_length hroom hcons, shift_filled]
              omega
            · rw [parseLoop_stopped hp hx] at h
              cases h
              rw [Framing.drain_stop hstable hfront (h := srv.handler outside) hx, hdrop]

section

variable {a : Accum} {incoming rest : Incoming} {out out' : Log A}

/-- `vec_read_loop` that goes on, or comes to the upgrade request, has made its read. -/
theorem vecReadLoop_parsed (hroom : a.filled < a.buf.length) {ended : Parsed A}
    (h : srv.vecReadLoop outside a incoming out = (ended, rest))
    (hended : ∀ out' unread, ended ≠ .stop out' .close unread) :
    ∃ returned, incoming.read a.offered.length = (.ok returned, rest) ∧
      returned ++ rest.bytes = incoming.bytes ∧ 0 < returned.length ∧
      ended = srv.parseLoop outside (a.filled + returned.length + 1)
        { buf := a.contents ++ returned, filled := a.filled + returned.length } out := by
  rw [vecReadLoop_room hroom] at h
  rcases hread : incoming.read a.offered.length with ⟨_ | _, rest'⟩
  · rename_i returned
    rw [hread] at h
    dsimp only [Server.afterRead] at h
    split_ifs at h with hzero
    · cases h
      exact absurd rfl (hended _ _)
    · cases h
      exact ⟨returned, rfl, (readUpTo_ok hread).1, Nat.pos_of_ne_zero hzero, rfl⟩
  · rw [hread] at h
    cases h
    exact absurd rfl (hended _ _)

theorem vecReadLoop_upgrade (hlib : Incremental srv.lib) (hroom : a.filled < a.buf.length)
    {unread : List UInt8}
    (h : srv.vecReadLoop outside a incoming out = (.stop out' .webSocketUpgrade unread, rest)) :
    (∃ returned, incoming.read a.offered.length = (.ok returned, rest)) ∧
      Framing.drain srv.parser (srv.handler outside) out (a.contents ++ incoming.bytes)
        = .stop out' .webSocketUpgrade (unread ++ rest.bytes) := by
  obtain ⟨returned, hread, hbytes, -, hloop⟩ := vecReadLoop_parsed hroom h (by intro _ _ hstop; cases hstop)
  obtain ⟨hlen, hcontents⟩ := read_contents hroom returned
  refine ⟨⟨returned, hread⟩, ?_⟩
  rw [← hbytes, ← List.append_assoc, ← hcontents]
  exact parseLoop_upgrade hlib rest.bytes _ _ out (Nat.le_of_eq hlen.symm) hloop.symm

theorem vecReadLoop_continues (hlib : Incremental srv.lib) (hroom : a.filled < a.buf.length) {a' : Accum}
    (h : srv.vecReadLoop outside a incoming out = (.more a' out', rest)) :
    (∃ returned, incoming.read a.offered.length = (.ok returned, rest)) ∧
      a'.filled < a'.buf.length ∧
      Framing.drain srv.parser (srv.handler outside) out (a.contents ++ incoming.bytes)
        = Framing.drain srv.parser (srv.handler outside) out' (a'.contents ++ rest.bytes) := by
  obtain ⟨returned, hread, hbytes, hpos, hloop⟩ := vecReadLoop_parsed hroom h (by intro _ _ hstop; cases hstop)
  obtain ⟨hlen, hcontents⟩ := read_contents hroom returned
  have hspec := parseLoop_spec outside hlib rest.bytes (a.filled + returned.length + 1)
    { buf := a.contents ++ returned, filled := a.filled + returned.length } out (Nat.le_of_eq hlen.symm)
    (by dsimp only; omega)
  rw [← hloop] at hspec
  obtain ⟨⟨consumed, hhandled⟩, hroom', -⟩ := hspec
  rw [hcontents, List.append_assoc, hbytes] at hhandled
  exact ⟨⟨returned, hread⟩, hroom', hhandled.drain (parser_stable hlib)⟩

end

/-- A leased buffer with the upgrade request in front is left as a drain of the stream leaves it. -/
theorem parseLeased_upgrade (hlib : Incremental srv.lib) {excess : Nat} {lease : List UInt8} (ext : List UInt8)
    {out out' : Log A} {unread : List UInt8}
    (h : srv.parseLeased outside excess lease out = .stop out' .webSocketUpgrade unread) :
    Framing.drain srv.parser (srv.handler outside) out (lease ++ ext)
      = .stop out' .webSocketUpgrade (unread ++ ext) := by
  have hstable : Framing.Stable srv.parser := parser_stable hlib
  unfold Server.parseLeased at h
  cases hp : srv.tryParse lease with
  | error e =>
      rw [hp] at h
      cases h
  | ok found =>
      rw [hp] at h
      rcases found with _ | parsed
      · cases h
      · dsimp only at h
        rcases hx : srv.executeAndRespond outside out parsed with ⟨out1, _ | stop⟩
        · rw [hx] at h
          cases h
        · rw [hx] at h
          cases h
          have hcons := (tryParse_some hlib hp).2
          rw [Framing.drain_stop hstable (hstable.some_append ext (parser_some hp)) (h := srv.handler outside) hx,
            List.drop_append_of_le_length hcons]

/-! ### The main loop -/

/-- The read of a cycle, if it makes one. -/
def State.read (srv : Server A Ω) (buffers : Buffers) (s : State A) : Option (ReadResult × Incoming) :=
  match s.accum with
  | some a =>
      match srv.makeRoom a s.out with
      | .ok _ => some (s.incoming.read a.offered.length)
      | .error _ => none
  | none => if srv.isTls || !buffers.leases s.cycle then none else some s.incoming.readLease

/-- What is buffered or to come is drained to the same end as the whole stream. -/
structure Draining (srv : Server A Ω) (outside : Outside Ω) (stream : List UInt8) (s : State A) : Prop where
  same : Framing.drain srv.parser (srv.handler outside) [] stream
    = Framing.drain srv.parser (srv.handler outside) s.out (accumBytes s.accum ++ s.incoming.bytes)
  room : ∀ a, s.accum = some a → a.filled < a.buf.length

/-- A cycle goes on behind its read, or stops where a drain of the stream stops for an upgrade. -/
def CycleDrains (srv : Server A Ω) (outside : Outside Ω) (buffers : Buffers) (stream : List UInt8)
    (s : State A) : State A ⊕ Outcome A → Prop
  | .inl s' => Draining srv outside stream s' ∧ s'.incoming.bytes <:+ s.incoming.bytes ∧
      ∀ r rest, s.read srv buffers = some (r, rest) → s'.incoming = rest
  | .inr outcome => outcome.stop = .webSocketUpgrade →
      Framing.drain srv.parser (srv.handler outside) [] stream
        = .stop outcome.out .webSocketUpgrade (outcome.unread ++ outcome.incoming.bytes) ∧
      ∃ got, s.read srv buffers = some (.ok got, outcome.incoming)

section

variable {stream : List UInt8} {s : State A}

theorem vec_drains (hlib : Incremental srv.lib) {a : Accum} (ha : s.accum = some a)
    (hs : Draining srv outside stream s) :
    CycleDrains srv outside buffers stream s (srv.step outside buffers s) := by
  have hroom := hs.room a ha
  have hread : s.read srv buffers = some (s.incoming.read a.offered.length) := by
    unfold State.read
    rw [ha]
    dsimp only
    rw [makeRoom_room (by omega)]
  have hsame := hs.same
  rw [ha] at hsame
  unfold Server.step
  rw [ha]
  dsimp only
  rcases hloop : srv.vecReadLoop outside a s.incoming s.out with ⟨_ | _, rest⟩
  · rename_i a' out'
    obtain ⟨⟨returned, hgot⟩, hroom', hdrain⟩ := vecReadLoop_continues hlib hroom hloop
    refine ⟨⟨?_, fun b hb => ?_⟩, ?_, ?_⟩
    · rw [hsame]
      dsimp only
      rw [kept_contents (Nat.le_of_lt hroom')]
      exact hdrain
    · obtain rfl := kept_eq hb
      exact hroom'
    · rw [← (readUpTo_ok hgot).1]
      exact List.suffix_append _ _
    · intro r rest' h
      rw [hread, hgot] at h
      cases h
      rfl
  · rename_i out' stop unread
    intro hupgrade
    dsimp only at hupgrade
    subst hupgrade
    obtain ⟨⟨returned, hgot⟩, hdrain⟩ := vecReadLoop_upgrade hlib hroom hloop
    refine ⟨?_, returned, ?_⟩
    · rw [hsame]
      exact hdrain
    · rw [hread, hgot]

theorem fresh_drains (ha : s.accum = none) (hvec : (srv.isTls || !buffers.leases s.cycle) = true)
    (hs : Draining srv outside stream s) :
    CycleDrains srv outside buffers stream s (srv.step outside buffers s) := by
  have hsame := hs.same
  rw [ha] at hsame
  unfold Server.step
  rw [ha]
  dsimp only
  rw [if_pos hvec]
  refine ⟨⟨hsame, fun b hb => ?_⟩, List.suffix_refl _, ?_⟩
  · cases hb
    exact fresh_room
  · intro r rest h
    unfold State.read at h
    rw [ha] at h
    dsimp only at h
    rw [if_pos hvec] at h
    cases h

theorem leased_drains (hlib : Incremental srv.lib) (ha : s.accum = none)
    (hlease : (srv.isTls || !buffers.leases s.cycle) = false) (hs : Draining srv outside stream s) :
    CycleDrains srv outside buffers stream s (srv.step outside buffers s) := by
  have hread : s.read srv buffers = some s.incoming.readLease := by
    unfold State.read
    rw [ha, hlease]
    rfl
  have hsame := hs.same
  rw [ha] at hsame
  unfold Server.step
  rw [ha, hlease]
  dsimp only
  rw [if_neg Bool.false_ne_true]
  rcases hgot : s.incoming.readLease with ⟨_ | _, rest⟩
  · rename_i lease
    obtain ⟨hbytes, hpulled⟩ := readUpTo_ok hgot
    have hfits : lease.length ≤ defaultBufSize := by
      rw [hpulled]
      exact pull_length_le fun _ => Nat.le_refl _
    dsimp only
    by_cases hzero : lease.length = 0
    · rw [if_pos hzero]
      intro hupgrade
      cases hupgrade
    · rw [if_neg hzero]
      cases hparse : srv.parseLeased outside (buffers.excess s.cycle) lease s.out with
      | stop out' stop unread =>
          intro hupgrade
          dsimp only at hupgrade
          subst hupgrade
          refine ⟨?_, lease, ?_⟩
          · rw [hsame, ← hbytes]
            exact parseLeased_upgrade hlib rest.bytes hparse
          · rw [hread, hgot]
      | more accum out' =>
          obtain ⟨⟨now, hnow⟩, hroom⟩ := parseLeased_more hlib hzero hfits rest.bytes hparse
          refine ⟨⟨?_, fun b hb => (hroom b hb).1⟩, ?_, ?_⟩
          · rw [hsame, ← hbytes]
            exact hnow.drain (parser_stable hlib)
          · rw [← hbytes]
            exact List.suffix_append _ _
          · intro r rest' h
            rw [hread, hgot] at h
            cases h
            rfl
  · intro hupgrade
    cases hupgrade

theorem step_drains (hlib : Incremental srv.lib) (hs : Draining srv outside stream s) :
    CycleDrains srv outside buffers stream s (srv.step outside buffers s) := by
  cases ha : s.accum with
  | some a => exact vec_drains hlib ha hs
  | none =>
      cases hvec : srv.isTls || !buffers.leases s.cycle with
      | true => exact fresh_drains ha hvec hs
      | false => exact leased_drains hlib ha hvec hs

theorem reached_draining (hlib : Incremental srv.lib) {incoming : Incoming}
    (hs : Reached srv outside buffers incoming s) : Draining srv outside incoming.bytes s := by
  induction hs with
  | init => exact ⟨rfl, fun b hb => by cases hb⟩
  | step _ hstep ih =>
      have hcycle : CycleDrains srv outside buffers _ _ _ := step_drains hlib ih
      rw [hstep] at hcycle
      exact hcycle.1

end

/-! ### The switch -/

/-- One cycle that goes on. -/
def Cycle (srv : Server A Ω) (outside : Outside Ω) (buffers : Buffers) (s s' : State A) : Prop :=
  srv.step outside buffers s = .inl s'

/-- No read of the HTTP phase takes a byte of the end of the stream. -/
def ReadsLeave (srv : Server A Ω) (outside : Outside Ω) (buffers : Buffers) (incoming : Incoming)
    (after : List UInt8) : Prop :=
  ∀ s, Reached srv outside buffers incoming s → ∀ got rest, s.read srv buffers = some (.ok got, rest) →
    after <:+ rest.bytes

section

variable {incoming : Incoming} {s t : State A}

theorem reached_path (hs : Reached srv outside buffers incoming s) :
    Relation.ReflTransGen (Cycle srv outside buffers) (.init incoming) s := by
  induction hs with
  | init => exact .refl
  | step _ hstep ih => exact ih.tail hstep

/-- The loop goes one way, so every state of it comes before the last one. -/
theorem reached_before {outcome : Outcome A} (hs : Reached srv outside buffers incoming s)
    (hlast : srv.step outside buffers s = .inr outcome) (ht : Reached srv outside buffers incoming t) :
    Relation.ReflTransGen (Cycle srv outside buffers) t s := by
  induction ht with
  | init => exact reached_path hs
  | @step t t' _ hstep ih =>
      rcases ih.cases_head with rfl | ⟨u, hfirst, hrest⟩
      · rw [hlast] at hstep
        cases hstep
      · have hsame : Sum.inl u = Sum.inl t' := hfirst.symm.trans hstep
        cases hsame
        exact hrest

/-- What has yet to arrive gets shorter at its front. -/
theorem incoming_suffix (hlib : Incremental srv.lib) (ht : Reached srv outside buffers incoming t)
    (h : Relation.ReflTransGen (Cycle srv outside buffers) t s) :
    Reached srv outside buffers incoming s ∧ s.incoming.bytes <:+ t.incoming.bytes := by
  induction h with
  | refl => exact ⟨ht, List.suffix_refl _⟩
  | @tail b c _ hstep ih =>
      obtain ⟨hb, hsuffix⟩ := ih
      have hcycle : CycleDrains srv outside buffers _ _ _ := step_drains hlib (reached_draining hlib hb)
      rw [show srv.step outside buffers b = .inl c from hstep] at hcycle
      exact ⟨.step hb hstep, hcycle.2.1.trans hsuffix⟩

/-- A read takes what it returns off the front of what has yet to arrive. -/
theorem read_bytes {got : List UInt8} {rest : Incoming} (h : s.read srv buffers = some (.ok got, rest)) :
    got ++ rest.bytes = s.incoming.bytes := by
  unfold State.read at h
  split at h
  · split at h
    · exact (readUpTo_ok (Option.some.inj h)).1
    · cases h
  · split_ifs at h
    exact (readUpTo_ok (Option.some.inj h)).1

/-- The last cycle made a read, and dropped what a drain leaves behind the upgrade request of it. -/
theorem switch_drains (hlib : Incremental srv.lib) {outcome : Outcome A}
    (hs : Reached srv outside buffers incoming s) (hlast : srv.step outside buffers s = .inr outcome)
    (hupgrade : outcome.stop = .webSocketUpgrade) :
    Framing.drain srv.parser (srv.handler outside) [] incoming.bytes
        = .stop outcome.out .webSocketUpgrade (outcome.unread ++ outcome.incoming.bytes) ∧
      ∃ got, s.read srv buffers = some (.ok got, outcome.incoming) := by
  have hend : CycleDrains srv outside buffers _ _ _ := step_drains hlib (reached_draining hlib hs)
  rw [hlast] at hend
  exact hend hupgrade

/-- Every read of the HTTP phase leaves what is there at the switch. -/
theorem switch_suffix (hlib : Incremental srv.lib) {outcome : Outcome A}
    (hs : Reached srv outside buffers incoming s) (hlast : srv.step outside buffers s = .inr outcome)
    (hupgrade : outcome.stop = .webSocketUpgrade) :
    ReadsLeave srv outside buffers incoming outcome.incoming.bytes := by
  intro t ht got rest hread
  obtain ⟨-, lastGot, hlastRead⟩ := switch_drains hlib hs hlast hupgrade
  rcases (reached_before hs hlast ht).cases_head with rfl | ⟨u, hfirst, hpath⟩
  · rw [hread] at hlastRead
    cases hlastRead
    exact List.suffix_refl _
  · have hcycle : CycleDrains srv outside buffers _ _ _ := step_drains hlib (reached_draining hlib ht)
    rw [show srv.step outside buffers t = .inl u from hfirst] at hcycle
    obtain ⟨-, -, hrest⟩ := hcycle
    rw [← hrest _ _ hread]
    have hleft : outcome.incoming.bytes <:+ s.incoming.bytes := by
      rw [← read_bytes hlastRead]
      exact List.suffix_append _ _
    exact hleft.trans (incoming_suffix hlib (.step ht hfirst) hpath).2

end

/--
**When no byte is lost at the switch.**  However the stream is cut, and whether the
upgrade request was found in a leased buffer or in the accumulation buffer: what a drain
of the whole stream leaves behind the upgrade request is what `ws_streaming_loop` has
before it, if and only if no read of the HTTP phase went behind that request.
-/
theorem switch_keeps_iff (srv : Server A Ω) (outside : Outside Ω) (buffers : Buffers) (incoming : Incoming)
    (hlib : Incremental srv.lib) {s : State A} {outcome : Outcome A}
    (hs : Reached srv outside buffers incoming s) (hlast : srv.step outside buffers s = .inr outcome)
    (hupgrade : outcome.stop = .webSocketUpgrade) :
    ∃ after, Framing.drain srv.parser (srv.handler outside) [] incoming.bytes
        = .stop outcome.out .webSocketUpgrade after ∧
      (outcome.wsReader.buffered ++ outcome.wsReader.incoming.bytes = after ↔
        ReadsLeave srv outside buffers incoming after) := by
  obtain ⟨hdrain, got, hread⟩ := switch_drains hlib hs hlast hupgrade
  refine ⟨outcome.unread ++ outcome.incoming.bytes, hdrain, ?_⟩
  have hempty : outcome.wsReader.buffered ++ outcome.wsReader.incoming.bytes = outcome.incoming.bytes := rfl
  rw [hempty]
  constructor
  · intro hkept
    rw [← hkept]
    exact switch_suffix hlib hs hlast hupgrade
  · intro hleave
    have hlength := (hleave s hs got _ hread).length_le
    rw [List.length_append] at hlength
    have hnone : outcome.unread = [] := List.length_eq_zero_iff.mp (by omega)
    rw [hnone, List.nil_append]

/-! One upgrade request, and a frame of the client. -/

def upgradeServer : Server Unit Unit := socketServer (fullHandshake "websocket")

def upgradeHead : List UInt8 := socketHead (fullHandshake "websocket")

/-- A masked TEXT frame. -/
def clientFrame : List UInt8 := [0x81, 0x82, 0, 0, 0, 0, 0x68, 0x69]

theorem upgradeHead_ne : upgradeHead ≠ [] := by decide +kernel

/-- The frame comes behind the upgrade request, in a segment of its own. -/
def frameApart : Incoming where
  segs := [{ bytes := upgradeHead, spare := 0, nonempty := upgradeHead_ne },
    { bytes := clientFrame, spare := 0, nonempty := by decide }]
  reset := false

/-- The frame comes in one segment with the upgrade request. -/
def frameTogether : Incoming where
  segs := [{ bytes := upgradeHead ++ clientFrame, spare := 0
             nonempty := List.append_ne_nil_of_left_ne_nil upgradeHead_ne _ }]
  reset := false

/-- The outcome of a cycle is an upgrade, with these bytes dropped and these to come. -/
def upgradesWith (unread left : List UInt8) : State Unit ⊕ Outcome Unit → Bool :=
  Sum.elim (fun _ => false) fun o => o.stop == .webSocketUpgrade && o.unread == unread && o.incoming.bytes == left

theorem outcome_of_upgrade {unread left : List UInt8} {r : State Unit ⊕ Outcome Unit}
    (h : upgradesWith unread left r = true) :
    ∃ o, r = .inr o ∧ o.stop = .webSocketUpgrade ∧ o.unread = unread ∧ o.incoming.bytes = left := by
  cases r with
  | inl s => cases h
  | inr o =>
      simp only [upgradesWith, Sum.elim_inr, Bool.and_eq_true, beq_iff_eq] at h
      exact ⟨o, rfl, h.1.1, h.1.2, h.2⟩

theorem incremental_of_parse {lib lib' : HttpLib} (hlib : Incremental lib) (h : lib'.parse = lib.parse) :
    Incremental lib' := by
  refine ⟨?_, ?_, ?_⟩
  · rw [h]
    exact hlib.consumes
  · rw [h]
    exact hlib.complete_append
  · rw [h]
    exact hlib.error_append

theorem socketServer_incremental {fields : List (String × String)} (h : socketHead fields ≠ []) :
    Incremental (socketServer fields).lib :=
  incremental_of_parse (@oneRequestLib_incremental _ (socketRequest fields) .get h) rfl

theorem upgradeServer_incremental : Incremental upgradeServer.lib := socketServer_incremental upgradeHead_ne

theorem switch_keeps_iff_apart : ∃ outcome,
    upgradeServer.step quiet firstLeased (.init frameApart) = .inr outcome ∧
      Framing.drain upgradeServer.parser (upgradeServer.handler quiet) [] frameApart.bytes
        = .stop outcome.out .webSocketUpgrade clientFrame ∧
      outcome.wsReader.buffered ++ outcome.wsReader.incoming.bytes = clientFrame := by
  have hcheck : upgradesWith [] clientFrame (upgradeServer.step quiet firstLeased (.init frameApart)) = true := by
    decide +kernel
  obtain ⟨outcome, hlast, hupgrade, hunread, hleft⟩ := outcome_of_upgrade hcheck
  obtain ⟨after, hdrain, hiff⟩ :=
    switch_keeps_iff upgradeServer quiet firstLeased frameApart upgradeServer_incremental .init hlast hupgrade
  obtain ⟨hsame, got, hread⟩ := switch_drains upgradeServer_incremental .init hlast hupgrade
  rw [hunread, hleft, List.nil_append, hdrain] at hsame
  obtain rfl : after = clientFrame := by
    injection hsame
  refine ⟨outcome, hlast, hdrain, hiff.mpr ?_⟩
  intro t ht got' rest hread'
  rcases (reached_path ht).cases_head with rfl | ⟨u, hfirst, -⟩
  · rw [hread] at hread'
    cases hread'
    exact ⟨[], hleft.symm⟩
  · have hsecond : upgradeServer.step quiet firstLeased (.init frameApart) = .inl u := hfirst
    rw [hlast] at hsecond
    cases hsecond

/-- A frame that comes with the upgrade request is dropped with the buffer, leased or not. -/
theorem frame_dropped :
    (∃ outcome, upgradeServer.step quiet firstLeased (.init frameTogether) = .inr outcome ∧
      Framing.drain upgradeServer.parser (upgradeServer.handler quiet) [] frameTogether.bytes
        = .stop outcome.out .webSocketUpgrade clientFrame ∧
      outcome.wsReader.buffered ++ outcome.wsReader.incoming.bytes = []) ∧
    ∃ s outcome, upgradeServer.step quiet firstLeased.withoutLeases (.init frameTogether) = .inl s ∧
      upgradeServer.step quiet firstLeased.withoutLeases s = .inr outcome ∧
      Framing.drain upgradeServer.parser (upgradeServer.handler quiet) [] frameTogether.bytes
        = .stop outcome.out .webSocketUpgrade clientFrame ∧
      outcome.wsReader.buffered ++ outcome.wsReader.incoming.bytes = [] := by
  constructor
  · have hcheck : upgradesWith clientFrame [] (upgradeServer.step quiet firstLeased (.init frameTogether))
        = true := by
      decide +kernel
    obtain ⟨outcome, hlast, hupgrade, hunread, hleft⟩ := outcome_of_upgrade hcheck
    obtain ⟨hsame, -⟩ := switch_drains upgradeServer_incremental .init hlast hupgrade
    rw [hunread, hleft, List.append_nil] at hsame
    exact ⟨outcome, hlast, hsame, hleft⟩
  · have hfresh : upgradeServer.step quiet firstLeased.withoutLeases (.init frameTogether)
        = .inl { State.init frameTogether with accum := some .fresh, cycle := 1 } := rfl
    have hcheck : upgradesWith clientFrame [] (upgradeServer.step quiet firstLeased.withoutLeases
        { State.init frameTogether with accum := some .fresh, cycle := 1 }) = true := by
      decide +kernel
    obtain ⟨outcome, hlast, hupgrade, hunread, hleft⟩ := outcome_of_upgrade hcheck
    obtain ⟨hsame, -⟩ := switch_drains upgradeServer_incremental (.step .init hfresh) hlast hupgrade
    rw [hunread, hleft, List.append_nil] at hsame
    exact ⟨_, outcome, hfresh, hlast, hsame, hleft⟩

end Mahalo.Endpoint
