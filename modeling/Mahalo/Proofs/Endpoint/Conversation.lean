/-
A connection from both ends.

Whatever a client sends and however it is cut, the requests that are executed are those
that stand one behind the other at the front of its stream, and each of them but the last
has its answer on the wire before the next is executed.  So a client that knows the
methods it asked with takes the answers off the wire one by one, and what it then comes to
is the last thing the connection did: nothing, a rejection of what it could not read, or
what became of the last request.  Of a write that fails there is a beginning on the wire,
which may be all there is of the last answer.

It rests on what a cycle consumes, which `Proofs/Endpoint/Accum.lean` shows of one that
goes on, and here of one that does not.
-/
import Mahalo.Proofs.Endpoint.Bodyless
import Mahalo.Proofs.Endpoint.Upgrade

namespace Mahalo.Endpoint

open HttpParse RustStd Segments

variable {A Ω : Type} {srv : Server A Ω} {outside : Outside Ω} {buffers : Buffers}

/-! ### How a connection ends -/

/-- How a connection ends behind this record, with this much of the stream not taken. -/
inductive Ending (srv : Server A Ω) (outside : Outside Ω) (out : Log A) (rest : List UInt8) :
    Log A → Stop → Prop
  /-- the stream is over, a read fails, or the last answer was the end -/
  | closed : Ending srv outside out rest out .close
  | bad {e : ParseError} : srv.parser rest = .error e →
      Ending srv outside out rest (out ++ [.reject (rejection e)]) .close
  /-- the beginning of a request fills the buffer -/
  | full {unread : List UInt8} {maxBuf : Nat} : unread <+: rest → srv.parser unread = .ok none →
      srv.maxBuf = some maxBuf → maxBuf ≤ unread.length →
      Ending srv outside out rest (out ++ [.reject response413]) .close
  /-- and how long it may be is more than a debug build can say -/
  | overflow {unread : List UInt8} : unread <+: rest → srv.parser unread = .ok none → srv.maxBuf = none →
      Ending srv outside out rest out .panic
  | last {parsed : ParsedRequest A} {n : Nat} {out' : Log A} {stop : Stop} :
      srv.parser rest = .ok (some (parsed, n)) →
      srv.executeAndRespond outside out parsed = (out', some stop) → Ending srv outside out rest out' stop

/-- Some requests were answered, and then the connection ended. -/
def Ends (srv : Server A Ω) (outside : Outside Ω) (out : Log A) (stream : List UInt8) (out' : Log A)
    (stop : Stop) : Prop :=
  ∃ requests out1 rest, Framing.Handled srv.parser (srv.handler outside) out stream requests out1 rest ∧
    Ending srv outside out1 rest out' stop

theorem Ends.behind {out out1 out' : Log A} {stream rest : List UInt8} {requests : List (ParsedRequest A)}
    {stop : Stop} (h : Framing.Handled srv.parser (srv.handler outside) out stream requests out1 rest)
    (hends : Ends srv outside out1 rest out' stop) : Ends srv outside out stream out' stop := by
  obtain ⟨requests', out2, rest', hhandled, hending⟩ := hends
  exact ⟨requests ++ requests', out2, rest', h.trans hhandled, hending⟩

theorem Ending.ends {out out' : Log A} {stream : List UInt8} {stop : Stop}
    (h : Ending srv outside out stream out' stop) : Ends srv outside out stream out' stop :=
  ⟨[], out, stream, .done _ _, h⟩

theorem sseStreamingLoop_adds (outside : Outside Ω) (chunks : List (List UInt8)) : ∀ out : Log A,
    ∃ done, sseStreamingLoop outside out chunks = out ++ done ∧ ∀ bytes, .response bytes ∉ done := by
  induction chunks with
  | nil =>
      intro out
      exact ⟨[], (List.append_nil _).symm, fun _ h => nomatch h⟩
  | cons chunk chunks ih =>
      intro out
      unfold sseStreamingLoop
      split
      · obtain ⟨done, hdone, hnone⟩ := ih (out ++ [.sse chunk])
        refine ⟨.sse chunk :: done, by rw [hdone, List.append_assoc]; rfl, fun bytes h => ?_⟩
        rcases List.mem_cons.mp h with h | h
        · cases h
        · exact hnone bytes h
      · exact ⟨[.sse chunk], rfl, by simp⟩

/-- The response to the request number `i`: there are two events for each of those before it. -/
def Server.sent (srv : Server A Ω) (outside : Outside Ω) (i : Nat) (parsed : ParsedRequest A) :
    Option (Sent A) :=
  match srv.executeRequest parsed.conn with
  | .error _ => none
  | .ok run => some {
      conn := run.eval (outside.answer (2 * i)) 0
      keepAlive := parsed.keepAlive
      date := outside.date (2 * i + 1) }

theorem sent_ok {parsed : ParsedRequest A} {i : Nat} {run : Router.Run A Ω (Conn A)}
    (h : srv.executeRequest parsed.conn = .ok run) :
    srv.sent outside i parsed = some {
      conn := run.eval (outside.answer (2 * i)) 0
      keepAlive := parsed.keepAlive
      date := outside.date (2 * i + 1) } := by
  unfold Server.sent
  rw [h]

/-- A request that is executed and answered. -/
def exchange (r : Rendering) (parsed : ParsedRequest A) (x : Sent A) : Log A :=
  [.execute parsed.conn, .response (x.bytes r)]

/-- No response is among these events, from the `i`-th on, but for one whose write fails. -/
def Outside.Unanswered (outside : Outside Ω) (i : Nat) (done : Log A) : Prop :=
  ∀ j bytes, done[j]? = some (.response bytes) → outside.accepts (i + j) = false

theorem unanswered_of_none {i : Nat} {done : Log A} (h : ∀ bytes, .response bytes ∉ done) :
    outside.Unanswered i done := fun _ bytes hj => absurd (List.mem_of_getElem? hj) (h bytes)

/-- A response whose write fails is the last thing that is done. -/
theorem unanswered_of_failed {i : Nat} {conn : Conn A} {bytes : List UInt8} (h : outside.accepts (i + 1) = false) :
    outside.Unanswered i [.execute conn, .response bytes] := by
  intro j bytes' hj
  match j, hj with
  | 1, _ => exact h

/-- A request is answered by its own response, or not answered and then the connection stops. -/
theorem executeAndRespond_cases {out out' : Log A} {parsed : ParsedRequest A} {stop : Option Stop} {i : Nat}
    (hlen : out.length = 2 * i) (h : srv.executeAndRespond outside out parsed = (out', stop)) :
    (∃ x, srv.sent outside i parsed = some x ∧ outside.accepts (2 * i + 1) = true ∧
      out' = out ++ exchange srv.rendering parsed x ∧ (stop = none ∨ stop = some .close)) ∨
    stop ≠ none ∧ ∃ done, out' = out ++ done ∧ outside.Unanswered (2 * i) done := by
  unfold Server.executeAndRespond at h
  split at h
  · obtain ⟨rfl, rfl⟩ := Prod.mk.inj h
    refine .inr ⟨?_, _, rfl, unanswered_of_none (by simp)⟩
    split <;> exact Option.some_ne_none _
  · dsimp only at h
    cases hrun : srv.executeRequest parsed.conn with
    | error e =>
        rw [hrun] at h
        obtain ⟨rfl, rfl⟩ := Prod.mk.inj h
        exact .inr ⟨Option.some_ne_none _, _, rfl, unanswered_of_none (by simp)⟩
    | ok run =>
        rw [hrun] at h
        dsimp only at h
        unfold Server.respond at h
        split at h
        · obtain ⟨rfl, rfl⟩ := Prod.mk.inj h
          refine .inr ⟨Option.some_ne_none _, ?_⟩
          split
          · obtain ⟨done, hdone, hnone⟩ := sseStreamingLoop_adds outside _
              (out ++ [.execute parsed.conn] ++ [.sse (serializeSseHeadersInto srv.rendering _ _)])
            refine ⟨_, by rw [hdone, List.append_assoc, List.append_assoc], unanswered_of_none fun bytes h => ?_⟩
            rcases List.mem_append.mp h with h | h
            · cases List.mem_singleton.mp h
            · rcases List.mem_append.mp h with h | h
              · cases List.mem_singleton.mp h
              · exact hnone bytes h
          · exact ⟨_, List.append_assoc .., unanswered_of_none (by simp)⟩
        · obtain ⟨rfl, rfl⟩ := Prod.mk.inj h
          have hindex : (out ++ [ServerEvent.execute parsed.conn]).length = 2 * i + 1 := by
            rw [List.length_append, hlen]
            rfl
          rw [hindex]
          cases haccepts : outside.accepts (2 * i + 1) with
          | true =>
              refine .inl ⟨_, sent_ok hrun, rfl, ?_, ?_⟩
              · rw [List.append_assoc, hlen]
                rfl
              · split
                · exact .inl rfl
                · exact .inr rfl
          | false =>
              refine .inr ⟨?_, _, List.append_assoc .., unanswered_of_failed haccepts⟩
              rw [Bool.false_and, if_neg Bool.false_ne_true]
              exact Option.some_ne_none _

/-! ### One read -/

variable (outside) in
/-- A parse loop that stops. -/
theorem parseLoop_ending (hlib : Incremental srv.lib) (ext : List UInt8) {out' : Log A} {stop : Stop}
    {unread : List UInt8} :
    ∀ (fuel : Nat) (a : Accum) (out : Log A), a.filled ≤ a.buf.length → 0 < a.filled → a.filled < fuel →
      srv.parseLoop outside fuel a out = .stop out' stop unread →
      Ends srv outside out (a.contents ++ ext) out' stop := by
  intro fuel
  induction fuel with
  | zero =>
      intro a out _ _ hfuel
      exact absurd hfuel (Nat.not_lt_zero _)
  | succ fuel ih =>
      intro a out hroom hpos hfuel h
      have hstable : Framing.Stable srv.parser := parser_stable hlib
      have hlen := a.contents_length hroom
      cases hp : srv.tryParse a.contents with
      | error e =>
          rw [parseLoop_error hp] at h
          cases h
          exact (Ending.bad (hstable.error_append ext (parser_error hp))).ends
      | ok found =>
          rcases found with _ | parsed
          · rw [parseLoop_incomplete hp] at h
            obtain ⟨-, hmake⟩ | ⟨hfull, ⟨hmax, hmake⟩ | ⟨maxBuf, hmax, ⟨hlong, hmake⟩ | ⟨-, hmake⟩⟩⟩ :=
              makeRoom_cases srv a out
            · rw [hmake] at h
              cases h
            · rw [hmake] at h
              cases h
              exact (Ending.overflow (List.prefix_append _ _) (parser_none hp) hmax).ends
            · rw [hmake] at h
              cases h
              exact (Ending.full (List.prefix_append _ _) (parser_none hp) hmax (by omega)).ends
            · rw [hmake] at h
              cases h
          · have hcons := tryParse_some hlib hp
            rw [hlen] at hcons
            rcases hx : srv.executeAndRespond outside out parsed with ⟨out1, _ | stop'⟩
            · have hfirst := Framing.Handled.single (h := srv.handler outside) hstable (parser_some hp) hx ext
              rw [parseLoop_answered hp hx] at h
              split_ifs at h with hzero
              have hfilled := shift_filled a parsed.bytesConsumed
              have hbuf := shift_length hroom hcons.2
              rw [← shift_contents hroom hcons.2] at hfirst
              exact .behind hfirst (ih _ out1 (by omega) (Nat.pos_of_ne_zero hzero) (by omega) h)
            · rw [parseLoop_stopped hp hx] at h
              cases h
              exact (Ending.last (hstable.some_append ext (parser_some hp)) hx).ends

section

variable {a : Accum} {incoming rest : Incoming} {out out' : Log A}

/-- `vec_read_loop` that goes on has consumed requests, and has come closer to the end of the stream. -/
theorem vecReadLoop_consumes (hlib : Incremental srv.lib) (hroom : a.filled < a.buf.length) {a' : Accum}
    (h : srv.vecReadLoop outside a incoming out = (.more a' out', rest)) :
    (∃ requests, Framing.Handled srv.parser (srv.handler outside) out (a.contents ++ incoming.bytes) requests out'
      (a'.contents ++ rest.bytes)) ∧
      a'.filled < a'.buf.length ∧ rest.bytes.length < incoming.bytes.length := by
  obtain ⟨returned, -, hbytes, hpos, hloop⟩ := vecReadLoop_parsed hroom h (by intro _ _ hstop; cases hstop)
  obtain ⟨hlen, hcontents⟩ := read_contents hroom returned
  have hspec := parseLoop_spec outside hlib rest.bytes (a.filled + returned.length + 1)
    { buf := a.contents ++ returned, filled := a.filled + returned.length } out (Nat.le_of_eq hlen.symm)
    (by dsimp only; omega)
  rw [← hloop] at hspec
  obtain ⟨hhandled, hroom', -⟩ := hspec
  rw [hcontents, List.append_assoc, hbytes] at hhandled
  refine ⟨hhandled, hroom', ?_⟩
  rw [← hbytes, List.length_append]
  omega

/-- `vec_read_loop` that stops. -/
theorem vecReadLoop_ending (hlib : Incremental srv.lib) (hroom : a.filled < a.buf.length) {stop : Stop}
    {unread : List UInt8} (h : srv.vecReadLoop outside a incoming out = (.stop out' stop unread, rest)) :
    Ends srv outside out (a.contents ++ incoming.bytes) out' stop := by
  have hclosed : Ends srv outside out (a.contents ++ incoming.bytes) out .close := Ending.closed.ends
  rw [vecReadLoop_room hroom] at h
  rcases hread : incoming.read a.offered.length with ⟨returned | _, rest'⟩
  · rw [hread] at h
    dsimp only [Server.afterRead] at h
    split_ifs at h with hzero
    · cases h
      exact hclosed
    · obtain ⟨hlen, hcontents⟩ := read_contents hroom returned
      obtain ⟨hbytes, -⟩ := readUpTo_ok hread
      have hends := parseLoop_ending outside hlib rest'.bytes (a.filled + returned.length + 1)
        { buf := a.contents ++ returned, filled := a.filled + returned.length } out (Nat.le_of_eq hlen.symm)
        (by dsimp only; omega) (Nat.lt_succ_self _) (congrArg Prod.fst h)
      rwa [hcontents, List.append_assoc, hbytes] at hends
  · rw [hread] at h
    cases h
    exact hclosed

end

/-- A leased read behind which the connection stops. -/
theorem parseLeased_ending (hlib : Incremental srv.lib) {excess : Nat} {lease : List UInt8} (ext : List UInt8)
    {out out' : Log A} {stop : Stop} {unread : List UInt8}
    (h : srv.parseLeased outside excess lease out = .stop out' stop unread) :
    Ends srv outside out (lease ++ ext) out' stop := by
  have hstable : Framing.Stable srv.parser := parser_stable hlib
  unfold Server.parseLeased at h
  cases hp : srv.tryParse lease with
  | error e =>
      rw [hp] at h
      cases h
      exact (Ending.bad (hstable.error_append ext (parser_error hp))).ends
  | ok found =>
      rw [hp] at h
      rcases found with _ | parsed
      · cases h
      · dsimp only at h
        rcases hx : srv.executeAndRespond outside out parsed with ⟨out1, _ | stop'⟩
        · rw [hx] at h
          cases h
        · rw [hx] at h
          cases h
          exact (Ending.last (hstable.some_append ext (parser_some hp)) hx).ends

/-! ### The main loop -/

/-- What holds before every cycle: requests were answered, and what is buffered or to come is behind them. -/
structure Consumed (srv : Server A Ω) (outside : Outside Ω) (stream : List UInt8) (s : State A) : Prop where
  handled : ∃ requests, Framing.Handled srv.parser (srv.handler outside) [] stream requests s.out
    (s.buffered ++ s.incoming.bytes)
  room : ∀ a, s.accum = some a → a.filled < a.buf.length

/-- A cycle consumes requests and comes closer to its end, or is the last one. -/
def CycleConsumes (srv : Server A Ω) (outside : Outside Ω) (stream : List UInt8) (s : State A) :
    State A ⊕ Outcome A → Prop
  | .inl s' => Consumed srv outside stream s' ∧ s'.weight < s.weight
  | .inr outcome => Ends srv outside [] stream outcome.out outcome.stop

section

variable {stream : List UInt8} {s : State A}

theorem step_consumes (hlib : Incremental srv.lib) (hs : Consumed srv outside stream s) :
    CycleConsumes srv outside stream s (srv.step outside buffers s) := by
  obtain ⟨before, hbefore⟩ := hs.handled
  unfold Server.step
  cases ha : s.accum with
  | some a =>
      have hroom := hs.room a ha
      have hbuffered : s.buffered = a.contents := by
        unfold State.buffered
        rw [ha]
        rfl
      rw [hbuffered] at hbefore
      dsimp only
      rcases hloop : srv.vecReadLoop outside a s.incoming s.out with ⟨⟨a', out'⟩ | ⟨out', stop, unread⟩, rest⟩
      · obtain ⟨⟨now, hnow⟩, hroom', hless⟩ := vecReadLoop_consumes hlib hroom hloop
        refine ⟨⟨⟨before ++ now, ?_⟩, fun b hb => ?_⟩, weight_of_fewer hless⟩
        · show Framing.Handled _ _ _ _ _ _ (accumBytes a'.kept ++ rest.bytes)
          rw [kept_contents (Nat.le_of_lt hroom')]
          exact hbefore.trans hnow
        · obtain rfl := kept_eq hb
          exact hroom'
      · exact .behind hbefore (vecReadLoop_ending hlib hroom hloop)
  | none =>
      have hbuffered : s.buffered = [] := by
        unfold State.buffered
        rw [ha]
        rfl
      rw [hbuffered, List.nil_append] at hbefore
      have hclosed : Ends srv outside [] stream s.out .close := .behind hbefore Ending.closed.ends
      dsimp only
      split_ifs with hvec
      · refine ⟨⟨⟨before, hbefore⟩, fun b hb => ?_⟩, ?_⟩
        · cases hb
          exact fresh_room
        · unfold State.weight
          rw [ha]
          exact Nat.lt_succ_self _
      · rcases hgot : s.incoming.readLease with ⟨lease | _, rest⟩
        · obtain ⟨hbytes, hpulled⟩ := readUpTo_ok hgot
          have hfits : lease.length ≤ defaultBufSize := by
            rw [hpulled]
            exact pull_length_le fun _ => Nat.le_refl _
          dsimp only
          split_ifs with hzero
          · exact hclosed
          · rw [← hbytes] at hbefore
            cases hparse : srv.parseLeased outside (buffers.excess s.cycle) lease s.out with
            | stop out' stop unread => exact .behind hbefore (parseLeased_ending hlib rest.bytes hparse)
            | more accum out' =>
                obtain ⟨⟨now, hnow⟩, hroom⟩ := parseLeased_more hlib hzero hfits rest.bytes hparse
                refine ⟨⟨⟨before ++ now, hbefore.trans hnow⟩, fun b hb => (hroom b hb).1⟩, weight_of_fewer ?_⟩
                dsimp only
                rw [← hbytes, List.length_append]
                omega
        · exact hclosed

theorem run_ends (hlib : Incremental srv.lib) :
    ∀ (fuel : Nat) (s : State A), Consumed srv outside stream s → s.weight < fuel →
      Ends srv outside [] stream (srv.run outside buffers fuel s).out (srv.run outside buffers fuel s).stop := by
  intro fuel
  induction fuel with
  | zero =>
      intro s _ hfuel
      exact absurd hfuel (Nat.not_lt_zero _)
  | succ fuel ih =>
      intro s hs hfuel
      have hcycle : CycleConsumes srv outside stream s (srv.step outside buffers s) := step_consumes hlib hs
      unfold Server.run
      cases hstep : srv.step outside buffers s with
      | inl s' =>
          rw [hstep] at hcycle
          obtain ⟨hs', hless⟩ := hcycle
          exact ih s' hs' (by omega)
      | inr outcome =>
          rw [hstep] at hcycle
          exact hcycle

end

/-- Every connection ends, behind requests that it answered. -/
theorem handleConnection_ends (hlib : Incremental srv.lib) (incoming : Incoming) :
    Ends srv outside [] incoming.bytes (srv.handleConnection outside buffers incoming).out
      (srv.handleConnection outside buffers incoming).stop :=
  run_ends hlib _ _ ⟨⟨[], .done _ _⟩, nofun⟩ (weight_init incoming)

/-! ### The client's end -/

/-- The responses are the answers to the requests, one each and in order, and were written. -/
def Server.Answers (srv : Server A Ω) (outside : Outside Ω) (i : Nat) (requests : List (ParsedRequest A))
    (sent : List (Sent A)) : Prop :=
  List.Forall₂ (fun request x => srv.sent outside request.2 request.1 = some x ∧
    outside.accepts (2 * request.2 + 1) = true) (requests.zipIdx i) sent

def exchanges (r : Rendering) (requests : List (ParsedRequest A)) (sent : List (Sent A)) : Log A :=
  (List.zipWith (exchange r) requests sent).flatten

theorem handled_answers {requests : List (ParsedRequest A)} {out out' : Log A} {buf rest : List UInt8}
    (h : Framing.Handled srv.parser (srv.handler outside) out buf requests out' rest) :
    ∀ {i : Nat}, out.length = 2 * i → ∃ sent, srv.Answers outside i requests sent ∧
      out' = out ++ exchanges srv.rendering requests sent ∧ out'.length = 2 * (i + requests.length) := by
  induction h with
  | done out buf =>
      intro i hlen
      exact ⟨[], .nil, (List.append_nil _).symm, hlen⟩
  | frame _ hx _ ih =>
      intro i hlen
      obtain ⟨x, hsent, hwritten, rfl, -⟩ | ⟨hstop, -⟩ := executeAndRespond_cases hlen hx
      · obtain ⟨sent, hanswers, hout, hlen'⟩ := @ih (i + 1) (by rw [List.length_append, hlen]; rfl)
        refine ⟨x :: sent, .cons ⟨hsent, hwritten⟩ hanswers, ?_, ?_⟩
        · rw [hout, List.append_assoc]
          rfl
        · rw [hlen', List.length_cons, Nat.add_assoc, Nat.add_comm 1]
      · exact absurd rfl hstop

theorem Server.Answers.length {i : Nat} {requests : List (ParsedRequest A)} {sent : List (Sent A)}
    (h : srv.Answers outside i requests sent) : requests.length = sent.length := by
  rw [← List.Forall₂.length_eq h, List.length_zipIdx]

theorem Server.Answers.concat {i : Nat} {requests : List (ParsedRequest A)} {sent : List (Sent A)}
    (h : srv.Answers outside i requests sent) {parsed : ParsedRequest A} {x : Sent A}
    (hx : srv.sent outside (i + requests.length) parsed = some x)
    (hwritten : outside.accepts (2 * (i + requests.length) + 1) = true) :
    srv.Answers outside i (requests ++ [parsed]) (sent ++ [x]) := by
  unfold Server.Answers
  rw [List.zipIdx_append]
  exact List.rel_append h (.cons ⟨hx, hwritten⟩ .nil)

theorem exchanges_concat (r : Rendering) {requests : List (ParsedRequest A)} {sent : List (Sent A)}
    (h : requests.length = sent.length) (parsed : ParsedRequest A) (x : Sent A) :
    exchanges r (requests ++ [parsed]) (sent ++ [x]) = exchanges r requests sent ++ exchange r parsed x := by
  unfold exchanges
  rw [List.zipWith_append h, List.flatten_append]
  exact congrArg _ (List.append_nil _)

/-! ### The wire -/

/-- What events, from the `i`-th on, put on the wire: a write that fails a beginning of it, if anything. -/
inductive Outside.Wire (outside : Outside Ω) : Nat → Log A → List UInt8 → Prop
  | nil (i : Nat) : Outside.Wire outside i [] []
  | cons {i : Nat} {e : ServerEvent A} {out : Log A} {sent wire : List UInt8} : sent <+: e.written →
      (outside.accepts i = true → sent = e.written) → Outside.Wire outside (i + 1) out wire →
      Outside.Wire outside i (e :: out) (sent ++ wire)

/-- All that is handed to the stream may be on the wire. -/
theorem wire_written (outside : Outside Ω) (out : Log A) : ∀ i, outside.Wire i out out.written := by
  induction out with
  | nil => exact .nil
  | cons e out ih =>
      intro i
      rw [Log.written_cons]
      exact .cons (List.prefix_refl _) (fun _ => rfl) (ih (i + 1))

/-- An executed request puts its answer on the wire, if it is written. -/
theorem wire_exchange {r : Rendering} {i : Nat} {parsed : ParsedRequest A} {x : Sent A} {out : Log A}
    {wire : List UInt8} (hwritten : outside.accepts (i + 1) = true)
    (h : outside.Wire i (exchange r parsed x ++ out) wire) :
    ∃ more, wire = x.bytes r ++ more ∧ outside.Wire (i + 2) out more := by
  obtain _ | ⟨hnone, -, _ | ⟨-, hall, hmore⟩⟩ := h
  rename_i sent more
  refine ⟨more, ?_, hmore⟩
  rw [List.prefix_nil.mp hnone, hall hwritten]
  rfl

theorem wire_exchanges {r : Rendering} {requests : List (ParsedRequest A)} {done : Log A} :
    ∀ {i : Nat} {sent : List (Sent A)} {wire : List UInt8}, srv.Answers outside i requests sent →
      outside.Wire (2 * i) (exchanges r requests sent ++ done) wire →
      ∃ more, wire = (sent.flatMap fun x => x.bytes r) ++ more ∧
        outside.Wire (2 * (i + requests.length)) done more := by
  induction requests with
  | nil =>
      intro i sent wire hanswers h
      cases hanswers
      exact ⟨wire, rfl, h⟩
  | cons parsed requests ih =>
      intro i sent wire hanswers h
      obtain _ | ⟨⟨-, hwritten⟩, hlater⟩ := hanswers
      rename_i x sent
      have hshape : exchanges r (parsed :: requests) (x :: sent) ++ done
          = exchange r parsed x ++ (exchanges r requests sent ++ done) := List.append_assoc ..
      rw [hshape] at h
      obtain ⟨behind, rfl, hbehind⟩ := wire_exchange hwritten h
      obtain ⟨more, rfl, hmore⟩ := ih (i := i + 1) hlater hbehind
      refine ⟨more, ?_, ?_⟩
      · rw [List.flatMap_cons, List.append_assoc]
      · rwa [Nat.add_assoc, Nat.add_comm 1] at hmore

/-- A connection ends with no answer, or with that to its last request. -/
theorem Ending.done {out out' : Log A} {rest : List UInt8} {stop : Stop} {i : Nat} (hlen : out.length = 2 * i)
    (h : Ending srv outside out rest out' stop) :
    (∃ done, out' = out ++ done ∧ outside.Unanswered (2 * i) done) ∨
    ∃ parsed n x, srv.parser rest = .ok (some (parsed, n)) ∧ srv.sent outside i parsed = some x ∧
      outside.accepts (2 * i + 1) = true ∧ out' = out ++ exchange srv.rendering parsed x ∧ stop = .close := by
  cases h with
  | closed => exact .inl ⟨[], (List.append_nil _).symm, unanswered_of_none (by simp)⟩
  | bad _ => exact .inl ⟨_, rfl, unanswered_of_none (by simp)⟩
  | full _ _ _ _ => exact .inl ⟨_, rfl, unanswered_of_none (by simp)⟩
  | overflow _ _ _ => exact .inl ⟨[], (List.append_nil _).symm, unanswered_of_none (by simp)⟩
  | last hp hx =>
      rcases executeAndRespond_cases hlen hx with ⟨x, hsent, hwritten, hout, hstop⟩ | ⟨-, hdone⟩
      · exact .inr ⟨_, _, x, hp, hsent, hwritten, hout, by simpa using hstop⟩
      · exact .inl hdone

/-- The answers are ones that a client can read, and about the methods it asked with. -/
def Readable (requests : List (ParsedRequest A)) (sent : List (Sent A)) : Prop :=
  (∀ x ∈ sent, x.Framed) ∧ sent.map (fun x => x.conn.method) = requests.map fun parsed => parsed.conn.method

/-- Readable answers are taken off the wire, and what is behind them is what was done behind them. -/
theorem takeEach_answers (hr : srv.rendering.PlainReasons) {requests : List (ParsedRequest A)}
    {sent : List (Sent A)} {done : Log A} (hanswers : srv.Answers outside 0 requests sent)
    (h : Readable requests sent) {wire : List UInt8}
    (hwire : outside.Wire 0 (exchanges srv.rendering requests sent ++ done) wire) :
    ∃ more, outside.Wire (2 * requests.length) done more ∧
      Lines.takeEach readResponse (requests.map fun parsed => parsed.conn.method) wire =
        some (sent.map Sent.meaning, more) := by
  obtain ⟨more, rfl, hmore⟩ := wire_exchanges hanswers hwire
  obtain ⟨hframed, hmethods⟩ := h
  rw [Nat.zero_add] at hmore
  refine ⟨more, hmore, ?_⟩
  rw [← hmethods]
  exact Lines.takeEach_writeEach readResponse _ _ Sent.meaning sent
    (fun x hx rest => readResponse_bytes hr (hframed x hx) rest) _

/-- The server without routes, at nine. -/
def atNine : Outside Unit := { quiet with date := fun _ => nineDate }

theorem ping_sent {i : Nat} {parsed : ParsedRequest Unit} {x : Sent Unit}
    (h : pingServer.sent atNine i parsed = some x) : x.conn.status = 404 ∧
      x.conn.respHeaders = parsed.conn.respHeaders ∧ x.conn.method = parsed.conn.method ∧ x.date = nineDate := by
  obtain ⟨⟨method, _⟩, _⟩ := parsed
  cases method <;>
  · cases h
    exact ⟨rfl, rfl, rfl, rfl⟩

theorem pings_readable {requests : List (ParsedRequest Unit)} (h : ∀ parsed ∈ requests, parsed.conn.respHeaders = []) :
    ∀ {i : Nat} {sent : List (Sent Unit)}, pingServer.Answers atNine i requests sent →
      Readable requests sent ∧ ∀ x ∈ sent, x.meaning.status = 404 := by
  induction requests with
  | nil =>
      intro i sent hanswers
      cases hanswers
      exact ⟨⟨fun _ hx => (nomatch hx), rfl⟩, fun _ hx => (nomatch hx)⟩
  | cons parsed requests ih =>
      intro i sent hanswers
      obtain ⟨hparsed, hmore⟩ := List.forall_mem_cons.mp h
      cases hanswers with
      | cons hfirst hlater =>
          obtain ⟨⟨hframed, hmethods⟩, hall⟩ := ih hmore hlater
          obtain ⟨hstatus, hheaders, hmethod, hdate⟩ := ping_sent hfirst.1
          rw [hparsed] at hheaders
          refine ⟨⟨List.forall_mem_cons.mpr ⟨?_, hframed⟩, ?_⟩, List.forall_mem_cons.mpr ⟨hstatus, hall⟩⟩
          · refine ⟨by rw [hstatus]; decide, by rw [hheaders]; rfl, by rw [hheaders]; rfl, ?_, ?_, ?_⟩
            · rw [hheaders]
              exact fun p hp => nomatch hp
            · rw [hheaders]
              exact fun p hp => nomatch hp
            · rw [hdate]
              exact ⟨asBytes "Fri, 06 Mar 2026 09:00:00 GMT", by decide, by decide⟩
          · rw [List.map_cons, List.map_cons, hmethod, hmethods]

theorem exchanges_record (r : Rendering) : ∀ {requests : List (ParsedRequest A)} {sent : List (Sent A)},
    requests.length = sent.length → executions (exchanges r requests sent) = requests.map (·.conn) ∧
      (responses (exchanges r requests sent)).length = sent.length ∧
      (exchanges r requests sent).length = 2 * sent.length := by
  intro requests
  induction requests with
  | nil =>
      intro sent h
      rw [List.eq_nil_of_length_eq_zero h.symm]
      exact ⟨rfl, rfl, rfl⟩
  | cons parsed requests ih =>
      intro sent h
      cases sent with
      | nil => cases h
      | cons x sent =>
          obtain ⟨hexecutions, hresponses, hlen⟩ := ih (Nat.succ.inj h)
          exact ⟨congrArg (parsed.conn :: ·) hexecutions, congrArg (· + 1) hresponses, congrArg (· + 2) hlen⟩

end Mahalo.Endpoint
