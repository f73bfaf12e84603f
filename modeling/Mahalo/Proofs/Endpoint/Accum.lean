/-
The accumulation buffer of the `Vec` reads.

Whatever a client sends and however it is cut, every cycle finds the buffer with
room behind its contents, so a read is never offered an empty slice and a 0 means
the end of the stream; the contents are what was received and not yet consumed;
and the buffer is never longer than twice the limit it may reach by doubling.  A
413 for a full buffer is never the answer to the beginning of a request that the
limits allow.

That is so as long as `body_limit + DEFAULT_BUF_SIZE` is a `usize`.  A release build
wraps a greater sum round, and then rejects what is far within the limit
(`wrapped_limit_rejects`); a debug build panics there.

The allocator may round up, but no further than to twice what is asked for, and
`split_off` gives its read no more room than the tail it cut off.
-/
import Mahalo.Proofs.Endpoint.Server

namespace Mahalo.Endpoint

open HttpParse Segments

variable {A Ω : Type} {srv : Server A Ω} {outside : Outside Ω} {buffers : Buffers}

/-! ### The record -/

/-- An event that is no rejection. -/
def ServerEvent.Served : ServerEvent A → Prop
  | .reject _ => False
  | _ => True

theorem sseStreamingLoop_last (outside : Outside Ω) (chunks : List (List UInt8)) :
    ∀ {pre : Log A} {e : ServerEvent A}, e.Served →
      ∃ pre' e', sseStreamingLoop outside (pre ++ [e]) chunks = pre' ++ [e'] ∧ e'.Served := by
  induction chunks with
  | nil => intro pre e he; exact ⟨pre, e, rfl, he⟩
  | cons chunk rest ih =>
      intro pre e _
      unfold sseStreamingLoop
      by_cases hok : outside.accepts (pre ++ [e]).length = true
      · rw [if_pos hok]
        exact ih (e := .sse chunk) trivial
      · rw [if_neg hok]
        exact ⟨_, _, rfl, trivial⟩

variable (srv outside) in
/-- The last thing a request does is not a rejection. -/
theorem executeAndRespond_last (out : Log A) (parsed : ParsedRequest A) :
    ∃ pre e, (srv.executeAndRespond outside out parsed).1 = pre ++ [e] ∧ e.Served := by
  unfold Server.executeAndRespond
  split
  · exact ⟨_, _, rfl, trivial⟩
  · dsimp only
    split
    · exact ⟨_, _, rfl, trivial⟩
    · unfold Server.respond
      split
      · dsimp only
        split
        · exact sseStreamingLoop_last outside _ trivial
        · exact ⟨_, _, rfl, trivial⟩
      · exact ⟨_, _, rfl, trivial⟩

/-- Between two cycles the record holds the requests consumed so far, and no rejection. -/
theorem handled_record {out out' : Log A} {buf rest : List UInt8} {consumed : List (ParsedRequest A)}
    (h : Framing.Handled srv.parser (srv.handler outside) out buf consumed out' rest) :
    executions out' = executions out ++ consumed.map (·.conn) ∧
      ((∀ e ∈ out, e.Served) → ∀ e ∈ out', e.Served) := by
  induction h with
  | done out buf => exact ⟨by simp, id⟩
  | @frame out out1 out' buf rest parsed n consumed hp hx _ ih =>
      obtain ⟨hexec, hserved⟩ := ih
      have hkeep : (srv.executeAndRespond outside out parsed).2 = none := congrArg Prod.snd hx
      obtain ⟨bytes, hbytes⟩ := executeAndRespond_keepAlive hkeep
      have hout : out1 = out ++ [.execute parsed.conn, .response bytes] :=
        (congrArg Prod.fst hx).symm.trans hbytes
      subst hout
      constructor
      · rw [hexec]
        simp [executions]
      · intro hall
        refine hserved ?_
        intro e he
        rcases List.mem_append.mp he with hmem | hmem
        · exact hall e hmem
        · simp only [List.mem_cons, List.not_mem_nil, or_false] at hmem
          rcases hmem with rfl | rfl <;> trivial

/-! ### The parse loop -/

/-- A parse loop ends with room behind what is left, or, for want of it, with a long buffer. -/
def ParseLoopSpec (srv : Server A Ω) (outside : Outside Ω) (a : Accum) (out : Log A)
    (ext : List UInt8) : Parsed A → Prop
  | .more a' out' =>
      (∃ consumed, Framing.Handled srv.parser (srv.handler outside) out (a.contents ++ ext) consumed
        out' (a'.contents ++ ext)) ∧
      a'.filled < a'.buf.length ∧
      ∀ maxBuf, srv.maxBuf = some maxBuf → a'.buf.length ≤ max a.buf.length (2 * maxBuf)
  | .stop out' stop unread => ∀ pre, out' = pre ++ [.reject response413] → stop = .close →
      srv.tryParse unread = .ok none → ∃ maxBuf, srv.maxBuf = some maxBuf ∧ maxBuf ≤ unread.length

variable (outside) in
theorem parseLoop_spec (hlib : Incremental srv.lib) (ext : List UInt8) :
    ∀ (fuel : Nat) (a : Accum) (out : Log A), a.filled ≤ a.buf.length → 0 < a.filled →
      ParseLoopSpec srv outside a out ext (srv.parseLoop outside fuel a out) := by
  intro fuel
  induction fuel with
  | zero =>
      intro a out _ _ pre _ hstop
      cases hstop
  | succ fuel ih =>
      intro a out hroom hpos
      have hlen := a.contents_length hroom
      cases hp : srv.tryParse a.contents with
      | error e =>
          rw [parseLoop_error hp]
          intro pre _ _ hnone
          cases hp.symm.trans hnone
      | ok o =>
          rcases o with _ | parsed
          · rw [parseLoop_incomplete hp]
            obtain ⟨hfull, hmake⟩ | ⟨hfull, ⟨hmax, hmake⟩ | ⟨maxBuf, hmax, ⟨hlong, hmake⟩ | ⟨hshort, hmake⟩⟩⟩ :=
              makeRoom_cases srv a out
            · rw [hmake]
              exact ⟨⟨[], .done _ _⟩, by omega, fun _ _ => by omega⟩
            · rw [hmake]
              intro pre _ hstop
              cases hstop
            · rw [hmake]
              intro pre _ _ _
              exact ⟨maxBuf, hmax, by omega⟩
            · rw [hmake]
              have hgrown := doubled_length a
              refine ⟨⟨[], ?_⟩, ?_, ?_⟩
              · rw [doubled_contents hfull]
                exact .done _ _
              · rw [hgrown, doubled_filled]
                omega
              · intro maxBuf' hmax'
                cases hmax.symm.trans hmax'
                omega
          · have hcons := tryParse_some hlib hp
            rw [hlen] at hcons
            rcases hx : srv.executeAndRespond outside out parsed with ⟨out', _ | s⟩
            · have hfirst := Framing.Handled.single (h := srv.handler outside) (parser_stable hlib)
                (parser_some hp) hx ext
              have hbuf := shift_length hroom hcons.2
              have hfilled := shift_filled a parsed.bytesConsumed
              rw [parseLoop_answered hp hx]
              rw [← shift_contents hroom hcons.2] at hfirst
              generalize a.shift parsed.bytesConsumed = shifted at hbuf hfilled hfirst
              by_cases hzero : shifted.filled = 0
              · rw [if_pos hzero]
                exact ⟨⟨[parsed], hfirst⟩, by omega, fun _ _ => by omega⟩
              · rw [if_neg hzero]
                have hrec := ih shifted out' (by omega) (Nat.pos_of_ne_zero hzero)
                generalize srv.parseLoop outside fuel shifted out' = result at hrec
                cases result with
                | stop out'' stop unread => exact hrec
                | more a' out'' =>
                    obtain ⟨⟨consumed, hhandled⟩, hroom', hbound⟩ := hrec
                    rw [hbuf] at hbound
                    exact ⟨⟨parsed :: consumed, hfirst.trans hhandled⟩, hroom', hbound⟩
            · rw [parseLoop_stopped hp hx]
              intro pre hpre _ _
              obtain ⟨pre', e, hlast, hserved⟩ := executeAndRespond_last srv outside out parsed
              rw [hx] at hlast
              obtain ⟨-, he⟩ := List.append_inj' (hlast.symm.trans hpre) rfl
              cases he
              exact hserved.elim

/-! ### One read -/

/-- The buffer that is read into: a full one is doubled first. -/
def Accum.grown (a : Accum) : List UInt8 :=
  if a.filled = a.buf.length then resize a.buf (a.buf.length * 2) else a.buf

/-- What the read is offered: the tail that `split_off(filled)` cuts off. -/
def Accum.offered (a : Accum) : List UInt8 := a.grown.drop a.filled

/-- A request with a header block of at most 8192 bytes and a body within the limit. -/
structure WithinLimits (srv : Server A Ω) (head body : List UInt8) : Prop where
  block : ∃ req, srv.lib.parse head = .complete head.length req
  headLe : head.length ≤ defaultBufSize
  bodyLen : ∀ raw, parseRaw srv.lib head = .ok (some raw) → raw.bodyLen = body.length
  bodyLe : body.length ≤ srv.bodyLimit

/-- A buffer that starts with such a request is not incomplete. -/
theorem WithinLimits.not_incomplete (hlib : Incremental srv.lib) {head body : List UInt8}
    (h : WithinLimits srv head body) (more : List UInt8) :
    srv.tryParse (head ++ body ++ more) ≠ .ok none := by
  obtain ⟨req, hparse⟩ := h.block
  have hraw : parseRaw srv.lib head ≠ .ok none := by
    intro hnone
    unfold parseRaw at hnone
    rw [hparse] at hnone
    dsimp only at hnone
    split at hnone
    · cases hnone
    · split at hnone <;> cases hnone
  have hsame : parseRaw srv.lib (head ++ body ++ more) = parseRaw srv.lib head := by
    rw [List.append_assoc]
    exact parseRaw_append hlib _ hraw
  unfold Server.tryParse tryParseRequest
  rw [hsame]
  cases hr : parseRaw srv.lib head with
  | error e => intro hbad; cases hbad
  | ok o =>
      rcases o with _ | raw
      · exact absurd hr hraw
      · obtain ⟨req', hparse'⟩ := parseRaw_some hr
        have hhead : raw.headerLen = head.length := by
          rw [hparse] at hparse'
          exact (Status.complete.inj hparse').1.symm
        have hbody := h.bodyLen raw hr
        have hle := h.bodyLe
        dsimp only
        rw [finalize_complete (by omega) (by simp only [List.length_append]; omega)]
        dsimp only
        split <;> intro hbad <;> cases hbad

/-- Reads into a `Vec` that was allocated for exactly its length. -/
def Incoming.Exact (incoming : Incoming) : Prop := ∀ seg ∈ incoming.segs, seg.spare = 0

theorem readUpTo_exact {incoming rest : Incoming} {limit : Segment UInt8 → Nat} {result : ReadResult}
    (h : Incoming.Exact incoming) (hread : incoming.readUpTo limit = (result, rest)) :
    Incoming.Exact rest := by
  unfold Incoming.readUpTo at hread
  split at hread
  · cases hread
    exact h
  · cases hread
    exact pull_spare (P := (· = 0)) h

/-- A read gets the front of what has yet to arrive, and no more than it was offered. -/
theorem read_ok {incoming rest : Incoming} {n : Nat} {returned : List UInt8}
    (hexact : Incoming.Exact incoming) (hread : incoming.read n = (.ok returned, rest)) :
    returned ++ rest.bytes = incoming.bytes ∧ returned.length ≤ n := by
  obtain ⟨hbytes, hgot⟩ := readUpTo_ok hread
  refine ⟨hbytes, ?_⟩
  rw [hgot]
  cases hsegs : incoming.segs with
  | nil => exact Nat.zero_le _
  | cons seg others =>
      have hspare : seg.spare = 0 := hexact seg (by rw [hsegs]; simp)
      have hlimit : vecLimit n seg ≤ n := by
        unfold vecLimit
        split <;> omega
      rcases Nat.lt_or_ge (vecLimit n seg) seg.bytes.length with hlt | hge
      · rw [(pull_part hlt).1]
        exact Nat.le_trans (List.length_take_le _ _) hlimit
      · rw [pull_whole hge]
        exact Nat.le_trans hge hlimit

/-- A read that was offered something returns 0 only at the end of the stream. -/
theorem read_zero {incoming rest : Incoming} {n : Nat} (hn : 0 < n)
    (hread : incoming.read n = (.ok [], rest)) : incoming.bytes = [] := by
  by_contra hbytes
  have hsegs : incoming.segs ≠ [] := fun hnil => hbytes (bytes_of_over hnil)
  obtain ⟨got, rest', hgot, -, -, hne, -⟩ := Incoming.readUpTo_more _ (vecLimit_pos hn) hsegs
  have hsame : (ReadResult.ok [], rest) = (ReadResult.ok got, rest') := hread.symm.trans hgot
  exact hne (ReadResult.ok.inj (congrArg Prod.fst hsame)).symm

section

variable {a : Accum} {out : Log A} {incoming : Incoming}

/-- What `vec_read_loop` makes of what it has read into a buffer with room. -/
def Server.afterRead (srv : Server A Ω) (outside : Outside Ω) (a : Accum) (out : Log A) :
    ReadResult × Incoming → Parsed A × Incoming
  | (.err, rest) => (.stop out .close a.contents, rest)
  | (.ok returned, rest) =>
      if returned.length = 0 then (.stop out .close a.contents, rest)
      else (srv.parseLoop outside (a.filled + returned.length + 1)
        { buf := a.contents ++ returned, filled := a.filled + returned.length } out, rest)

/-- With room in the buffer, `vec_read_loop` is one read and the parse loop behind it. -/
theorem vecReadLoop_room (hroom : a.filled < a.buf.length) :
    srv.vecReadLoop outside a incoming out =
      srv.afterRead outside a out (incoming.read a.offered.length) := by
  unfold Server.vecReadLoop Accum.offered Accum.grown
  rw [makeRoom_room (by omega), if_neg (by omega)]
  dsimp only
  rcases incoming.read (a.buf.drop a.filled).length with ⟨_ | _, rest⟩ <;> rfl

theorem offered_length (hroom : a.filled < a.buf.length) :
    a.filled + a.offered.length = a.buf.length ∧ a.grown.length = a.buf.length := by
  unfold Accum.offered Accum.grown
  rw [if_neg (by omega), List.length_drop]
  omega

theorem makeRoom_grown (hroom : a.filled < a.buf.length) :
    srv.makeRoom a out = .ok { a with buf := a.grown } := by
  unfold Accum.grown
  rw [makeRoom_room (by omega), if_neg (by omega)]

/-- How a call of `vec_read_loop` ends, with what it has consumed of the rest of the stream. -/
def VecReadLoopSpec (srv : Server A Ω) (outside : Outside Ω) (a : Accum) (incoming : Incoming)
    (out : Log A) : Parsed A × Incoming → Prop
  | (.more a' out', rest) =>
      (∃ consumed, Framing.Handled srv.parser (srv.handler outside) out
        (a.contents ++ incoming.bytes) consumed out' (a'.contents ++ rest.bytes)) ∧
      a'.filled < a'.buf.length ∧ a'.buf.length ≤ 2 * (srv.bodyLimit + defaultBufSize) ∧
      Incoming.Exact rest
  | (.stop out' stop unread, _) =>
      ∀ pre, out' = pre ++ [.reject response413] → stop = .close → srv.tryParse unread = .ok none →
        out' = out ∨ srv.bodyLimit + defaultBufSize ≤ unread.length

variable (outside) (out) in
theorem vecReadLoop_spec (hlib : Incremental srv.lib) (hfits : srv.Fits) (hexact : Incoming.Exact incoming)
    (hroom : a.filled < a.buf.length) (hbound : a.buf.length ≤ 2 * (srv.bodyLimit + defaultBufSize)) :
    VecReadLoopSpec srv outside a incoming out (srv.vecReadLoop outside a incoming out) := by
  rw [vecReadLoop_room hroom]
  rcases hread : incoming.read a.offered.length with ⟨result, rest⟩
  cases result with
  | err => exact fun _ _ _ _ => Or.inl rfl
  | ok returned =>
      obtain ⟨hbytes, hle⟩ := read_ok hexact hread
      obtain ⟨hoffered, -⟩ := offered_length hroom
      have hlen : a.contents.length = a.filled := a.contents_length (Nat.le_of_lt hroom)
      dsimp only [Server.afterRead]
      by_cases hzero : returned.length = 0
      · rw [if_pos hzero]
        exact fun _ _ _ _ => Or.inl rfl
      · rw [if_neg hzero]
        have hsum : (a.contents ++ returned).length = a.filled + returned.length := by
          rw [List.length_append, hlen]
        have hfull : (Accum.mk (a.contents ++ returned) (a.filled + returned.length)).contents =
            a.contents ++ returned := List.take_of_length_le (Nat.le_of_eq hsum)
        have hpos : 0 < a.filled + returned.length := by omega
        have hloop := parseLoop_spec outside hlib rest.bytes
          (a.filled + returned.length + 1)
          { buf := a.contents ++ returned, filled := a.filled + returned.length } out
          (Nat.le_of_eq hsum.symm) hpos
        generalize srv.parseLoop outside _ _ out = ended at hloop
        cases ended with
        | stop out' stop unread =>
            intro pre hpre hclose hnone
            obtain ⟨maxBuf, hmax, hlong⟩ := hloop pre hpre hclose hnone
            cases hfits.maxBuf.symm.trans hmax
            exact Or.inr hlong
        | more a' out' =>
            obtain ⟨⟨consumed, hhandled⟩, hroom', hbound'⟩ := hloop
            have hlong := hbound' _ hfits.maxBuf
            rw [hfull, List.append_assoc, hbytes] at hhandled
            refine ⟨⟨consumed, hhandled⟩, hroom', ?_, readUpTo_exact hexact hread⟩
            rw [hsum] at hlong
            omega

end

/-! ### The main loop -/

/-- Between two cycles: what was consumed, room behind what is buffered, and exact reads to come. -/
structure Buffered (srv : Server A Ω) (outside : Outside Ω) (stream : List UInt8) (s : State A) :
    Prop where
  handled : ∃ consumed, Framing.Handled srv.parser (srv.handler outside) [] stream consumed s.out
    (accumBytes s.accum ++ s.incoming.bytes)
  room : ∀ a, s.accum = some a →
    a.filled < a.buf.length ∧ a.buf.length ≤ 2 * (srv.bodyLimit + defaultBufSize)
  exact : Incoming.Exact s.incoming

theorem kept_contents {a : Accum} (h : a.filled ≤ a.buf.length) : accumBytes a.kept = a.contents :=
  kept_bytes (a.contents_length h).symm

theorem kept_eq {a b : Accum} (h : a.kept = some b) : a = b := by
  unfold Accum.kept at h
  split at h
  · cases h
  · exact Option.some.inj h

theorem leftover_length {excess : Nat} {leftover : List UInt8} {b : Accum}
    (hexcess : excess ≤ defaultBufSize) (hlt : leftover.length ≤ defaultBufSize)
    (hb : leftoverAccum excess leftover = some b) : b.buf.length ≤ 2 * defaultBufSize := by
  unfold leftoverAccum at hb
  split at hb
  · cases hb
  · cases hb
    show (resize leftover _).length ≤ _
    rw [resize_length (by omega)]
    omega

variable {stream : List UInt8} {s s' : State A}

theorem buffered_init {incoming : Incoming} (hexact : Incoming.Exact incoming) :
    Buffered srv outside incoming.bytes (State.init incoming) where
  handled := ⟨[], .done _ _⟩
  room := by
    intro a ha
    cases ha
  exact := hexact

theorem buffered_vec (hlib : Incremental srv.lib) (hfits : srv.Fits) {a : Accum} (ha : s.accum = some a)
    (hb : Buffered srv outside stream s) (hstep : srv.step outside buffers s = .inl s') :
    Buffered srv outside stream s' := by
  obtain ⟨hroom, hbound⟩ := hb.room a ha
  obtain ⟨consumed, hhandled⟩ := hb.handled
  have hspec := vecReadLoop_spec outside s.out hlib hfits hb.exact hroom hbound
  unfold Server.step at hstep
  rw [ha] at hstep hhandled
  dsimp only at hstep
  rcases hloop : srv.vecReadLoop outside a s.incoming s.out with ⟨a' | _, rest⟩
  · rw [hloop] at hspec hstep
    obtain ⟨⟨more, hmore⟩, hroom', hbound', hexact⟩ := hspec
    cases hstep
    refine ⟨⟨consumed ++ more, ?_⟩, ?_, hexact⟩
    · refine hhandled.trans ?_
      rw [kept_contents (Nat.le_of_lt hroom')]
      exact hmore
    · intro b hkept
      rw [← kept_eq hkept]
      exact ⟨hroom', hbound'⟩
  · rw [hloop] at hstep
    cases hstep

theorem buffered_fresh (hb : Buffered srv outside stream s) (ha : s.accum = none) :
    Buffered srv outside stream { s with accum := some .fresh, cycle := s.cycle + 1 } where
  handled := by
    obtain ⟨consumed, hhandled⟩ := hb.handled
    rw [ha] at hhandled
    exact ⟨consumed, hhandled⟩
  room := by
    rintro a ⟨⟩
    have hlen : Accum.fresh.buf.length = defaultBufSize := List.length_replicate
    exact ⟨fresh_room, by omega⟩
  exact := hb.exact

/-- A leased buffer is handled in part or kept, with room behind what is kept. -/
theorem parseLeased_more (hlib : Incremental srv.lib) {excess : Nat} {lease : List UInt8}
    (hne : lease.length ≠ 0) (hfits : lease.length ≤ defaultBufSize) (ext : List UInt8)
    {out out' : Log A} {accum : Option Accum}
    (h : srv.parseLeased outside excess lease out = .more accum out') :
    (∃ now, Framing.Handled srv.parser (srv.handler outside) out (lease ++ ext) now out'
        (accumBytes accum ++ ext)) ∧
      ∀ a, accum = some a → a.filled < a.buf.length ∧
        (excess ≤ defaultBufSize → a.buf.length ≤ 2 * defaultBufSize) := by
  unfold Server.parseLeased at h
  cases hp : srv.tryParse lease with
  | error e =>
      rw [hp] at h
      cases h
  | ok found =>
      rw [hp] at h
      rcases found with _ | parsed
      · cases h
        have hlen : (resize lease (max defaultBufSize (lease.length * 2))).length
            = max defaultBufSize (lease.length * 2) := resize_length (by omega)
        have hsame : (resize lease (max defaultBufSize (lease.length * 2))).take lease.length = lease :=
          resize_take (by omega)
        constructor
        · refine ⟨[], ?_⟩
          show Framing.Handled _ _ _ _ _ _ ((resize lease _).take lease.length ++ ext)
          rw [hsame]
          exact .done _ _
        · rintro a ⟨⟩
          show lease.length < (resize lease _).length ∧ (_ → (resize lease _).length ≤ _)
          omega
      · dsimp only at h
        rcases hx : srv.executeAndRespond outside out parsed with ⟨out'', _ | stop⟩
        · rw [hx] at h
          cases h
          have hcons := tryParse_some hlib hp
          have hdrop : (lease.drop parsed.bytesConsumed).length < defaultBufSize := by
            rw [List.length_drop]
            omega
          constructor
          · refine ⟨[parsed], ?_⟩
            rw [leftover_bytes]
            exact Framing.Handled.single (h := srv.handler outside) (parser_stable hlib) (parser_some hp) hx ext
          · intro a hkept
            refine ⟨leftover_room hdrop hkept, ?_⟩
            intro hexcess
            exact leftover_length hexcess (Nat.le_of_lt hdrop) hkept
        · rw [hx] at h
          cases h

theorem buffered_leased (hlib : Incremental srv.lib)
    (hexcess : ∀ n, buffers.excess n ≤ defaultBufSize) (ha : s.accum = none)
    (hb : Buffered srv outside stream s)
    (hlease : (srv.isTls || !buffers.leases s.cycle) = false)
    (hstep : srv.step outside buffers s = .inl s') : Buffered srv outside stream s' := by
  obtain ⟨consumed, hhandled⟩ := hb.handled
  unfold Server.step at hstep
  rw [ha] at hstep hhandled
  dsimp only at hstep
  rw [hlease] at hstep
  rcases hread : s.incoming.readLease with ⟨_ | _, rest⟩
  · rename_i lease
    obtain ⟨hbytes, hgot⟩ := readUpTo_ok hread
    have hfits : lease.length ≤ defaultBufSize := by
      rw [hgot]
      exact pull_length_le fun _ => Nat.le_refl _
    have hhandled : Framing.Handled srv.parser (srv.handler outside) [] stream consumed s.out
        (lease ++ rest.bytes) := by
      rw [hbytes]
      exact hhandled
    rw [hread] at hstep
    simp only [Bool.false_eq_true, if_false] at hstep
    by_cases hzero : lease.length = 0
    · rw [if_pos hzero] at hstep
      cases hstep
    · rw [if_neg hzero] at hstep
      cases hparse : srv.parseLeased outside (buffers.excess s.cycle) lease s.out with
      | stop out stop unread =>
          rw [hparse] at hstep
          cases hstep
      | more accum out =>
          rw [hparse] at hstep
          cases hstep
          obtain ⟨⟨now, hnow⟩, hroom⟩ := parseLeased_more hlib hzero hfits rest.bytes hparse
          refine ⟨⟨consumed ++ now, hhandled.trans hnow⟩, ?_, readUpTo_exact hb.exact hread⟩
          intro a hkept
          obtain ⟨hlt, hle⟩ := hroom a hkept
          have := hle (hexcess _)
          exact ⟨hlt, by omega⟩
  · rw [hread] at hstep
    cases hstep

/-- **One cycle keeps the buffer sound.** -/
theorem buffered_step (hlib : Incremental srv.lib) (hfits : srv.Fits)
    (hexcess : ∀ n, buffers.excess n ≤ defaultBufSize) (hb : Buffered srv outside stream s)
    (hstep : srv.step outside buffers s = .inl s') : Buffered srv outside stream s' := by
  cases ha : s.accum with
  | some a => exact buffered_vec hlib hfits ha hb hstep
  | none =>
      cases hvec : srv.isTls || !buffers.leases s.cycle with
      | false => exact buffered_leased hlib hexcess ha hb hvec hstep
      | true =>
          unfold Server.step at hstep
          rw [ha] at hstep
          dsimp only at hstep
          rw [hvec] at hstep
          cases hstep
          exact buffered_fresh hb ha

theorem reached_buffered (hlib : Incremental srv.lib) (hfits : srv.Fits)
    (hexcess : ∀ n, buffers.excess n ≤ defaultBufSize) {incoming : Incoming}
    (hexact : Incoming.Exact incoming) (hs : Reached srv outside buffers incoming s) :
    Buffered srv outside incoming.bytes s := by
  induction hs with
  | init => exact buffered_init hexact
  | step _ hstep ih => exact buffered_step hlib hfits hexcess ih hstep

/-! ### Every call of `vec_read_loop` -/

/-- A call of `vec_read_loop` on a stream, at its start, at its read, and at its end. -/
structure SoundCall (srv : Server A Ω) (outside : Outside Ω) (stream : List UInt8) (s : State A)
    (a : Accum) : Prop where
  nonempty : 1 ≤ a.buf.length
  filled : a.filled ≤ a.buf.length
  /-- the requests executed so far are in front of the buffered bytes, and nothing else is -/
  contents : ∃ consumed, Framing.Handled srv.parser (srv.handler outside) [] stream consumed s.out
    (a.contents ++ s.incoming.bytes) ∧ executions s.out = consumed.map (·.conn)
  /-- the call reads into the grown buffer, and offers its tail -/
  grows : srv.makeRoom a s.out = .ok { a with buf := a.grown }
  reads : srv.vecReadLoop outside a s.incoming s.out =
    srv.afterRead outside a s.out (s.incoming.read a.offered.length)
  /-- the read is offered something, so a 0 is the end of the stream -/
  offered : a.offered ≠ []
  zero : ∀ rest, s.incoming.read a.offered.length = (.ok [], rest) → s.incoming.bytes = []
  bounded : a.buf.length ≤ 2 * (srv.bodyLimit + defaultBufSize) ∧
    a.grown.length ≤ 2 * (srv.bodyLimit + defaultBufSize)
  boundedRead : ∀ returned rest, s.incoming.read a.offered.length = (.ok returned, rest) →
    (a.contents ++ returned).length ≤ 2 * (srv.bodyLimit + defaultBufSize)
  boundedEnd : ∀ a' out' rest, srv.vecReadLoop outside a s.incoming s.out = (.more a' out', rest) →
    a'.buf.length ≤ 2 * (srv.bodyLimit + defaultBufSize)
  /-- a 413 for a full buffer, that is, for a buffer that is incomplete, is no answer to a request
  within the limits, whatever follows it -/
  noLimit413 : ∀ pre unread rest,
    srv.vecReadLoop outside a s.incoming s.out = (.stop (pre ++ [.reject response413]) .close unread, rest) →
    srv.tryParse unread = .ok none →
    ∀ head body more, WithinLimits srv head body → ¬unread <+: head ++ body ++ more

/-- After the first request of two, with the beginning of the second in the buffer. -/
def halfway : State Unit where
  accum := leftoverAccum 0 (pingHead.take 9)
  incoming := { pingsInTwo with segs := pingsInTwo.segs.tail }
  out := (pingServer.executeAndRespond quiet [] ping.parsed).1
  cycle := 1

theorem halfway_reached : Reached pingServer quiet firstLeased pingsInTwo halfway :=
  .step .init rfl

/-- A limit with which the sum is 0. -/
def hugeServer : Server Unit Unit := { pingServer with bodyLimit := 2 ^ 64 - defaultBufSize }

/-- One request in two reads, and no lease for them. -/
def pingInTwo : Incoming :=
  { segs := { bytes := pingHead.take 9, spare := 0, nonempty := by decide } :: pingsInTwo.segs.tail
    reset := false }

def neverLeased : Buffers := { leases := fun _ => false, excess := fun _ => 0 }

/-- The first read: into a fresh buffer. -/
def beginning : State Unit := { State.init pingInTwo with accum := some .fresh, cycle := 1 }

end Mahalo.Endpoint
