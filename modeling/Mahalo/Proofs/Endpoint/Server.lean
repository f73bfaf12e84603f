/-
The leased reads of `handle_connection`, next to its `Vec` reads.

A stream of complete requests is served by draining: the parse loop of
`vec_read_loop` takes every complete request off the front of its buffer, so after
every `Vec` read only an incomplete one is left.  A leased read takes one request
and moves the bytes behind it to `accum`, where nothing looks at them before the
next read.  That is harmless as long as there is a next read.

So the two ways agree unless a leased read gets the end of the stream with more
than one request in it, or the sum that bounds the buffer of either overflows and the
beginning of a request is taken for too much.
-/
import Mahalo.Endpoint.Server
import Mahalo.Proofs.Endpoint.HttpParse
import Mahalo.Proofs.Endpoint.Stream

namespace Mahalo.Endpoint

open HttpParse Segments

variable {A Ω : Type} {srv : Server A Ω} {outside : Outside Ω}

/-! ### Requests -/

/-- A complete, valid request that asks for the connection to stay open. -/
structure KeepAliveRequest (srv : Server A Ω) where
  bytes : List UInt8
  parsed : ParsedRequest A
  parses : srv.tryParse bytes = .ok (some parsed)
  whole : parsed.bytesConsumed = bytes.length
  keepAlive : parsed.keepAlive = true
  fits : bytes.length ≤ srv.bodyLimit + defaultBufSize

def stream (requests : List (KeepAliveRequest srv)) : List UInt8 := requests.flatMap (·.bytes)

/-- The record after some requests were served one after the other. -/
def served (outside : Outside Ω) (out : Log A) (requests : List (KeepAliveRequest srv)) : Log A :=
  requests.foldl (fun out r => (srv.executeAndRespond outside out r.parsed).1) out

/-- Served in turn, every request is answered and the connection stays open. -/
def Answered (outside : Outside Ω) : Log A → List (KeepAliveRequest srv) → Prop
  | _, [] => True
  | out, r :: rest =>
      (srv.executeAndRespond outside out r.parsed).2 = none ∧
        Answered outside (srv.executeAndRespond outside out r.parsed).1 rest

theorem served_append (out : Log A) (now later : List (KeepAliveRequest srv)) :
    served outside out (now ++ later) = served outside (served outside out now) later :=
  List.foldl_append ..

theorem answered_append {out : Log A} {now later : List (KeepAliveRequest srv)}
    (h : Answered outside out (now ++ later)) :
    Answered outside out now ∧ Answered outside (served outside out now) later := by
  induction now generalizing out with
  | nil => exact ⟨trivial, h⟩
  | cons r rest ih =>
      obtain ⟨hnow, hlater⟩ := ih h.2
      exact ⟨⟨h.1, hnow⟩, hlater⟩

/-! ### What a served request leaves in the record -/

/-- The requests that were executed. -/
def executions (out : Log A) : List (Conn A) :=
  out.filterMap fun
    | .execute conn => some conn
    | _ => none

/-- The responses that were written. -/
def responses (out : Log A) : List (List UInt8) :=
  out.filterMap fun
    | .response bytes => some bytes
    | _ => none

theorem respond_keepAlive {out : Log A} {conn : Conn A} {keepAlive : Bool}
    (h : (srv.respond outside out conn keepAlive).2 = none) :
    ∃ bytes, (srv.respond outside out conn keepAlive).1 = out ++ [.response bytes] := by
  unfold Server.respond at h ⊢
  cases hsse : conn.assigns.bind srv.sse with
  | some chunks => rw [hsse] at h; cases h
  | none => exact ⟨_, rfl⟩

/-- A request after which the connection stays open was executed and answered once. -/
theorem executeAndRespond_keepAlive {out : Log A} {parsed : ParsedRequest A}
    (h : (srv.executeAndRespond outside out parsed).2 = none) :
    ∃ bytes, (srv.executeAndRespond outside out parsed).1
      = out ++ [.execute parsed.conn, .response bytes] := by
  unfold Server.executeAndRespond at h ⊢
  split at h
  · split at h <;> cases h
  · dsimp only at h ⊢
    split at h
    · cases h
    · obtain ⟨bytes, hbytes⟩ := respond_keepAlive h
      exact ⟨bytes, by rw [hbytes, List.append_assoc]; rfl⟩

theorem served_record {requests : List (KeepAliveRequest srv)} :
    ∀ {out : Log A}, Answered outside out requests →
      executions (served outside out requests) = executions out ++ requests.map (·.parsed.conn) ∧
        (responses (served outside out requests)).length
          = (responses out).length + requests.length := by
  induction requests with
  | nil => intro out _; exact ⟨(List.append_nil _).symm, rfl⟩
  | cons r rest ih =>
      intro out h
      obtain ⟨bytes, hbytes⟩ := executeAndRespond_keepAlive h.1
      obtain ⟨hexec, hresp⟩ := ih h.2
      have hserved : served outside out (r :: rest)
          = served outside (srv.executeAndRespond outside out r.parsed).1 rest := rfl
      rw [hserved, hexec, hresp, hbytes]
      constructor
      · simp [executions]
      · simp [responses]
        omega

/-- Where plugs return plain responses and writes succeed, every such request is answered. -/
theorem answered_of_plain (hws : srv.websockets = false) (hwrites : ∀ n, outside.accepts n = true)
    (hrun : ∀ conn, ∃ run, srv.executeRequest conn = .ok run) (hsse : ∀ a, srv.sse a = none) :
    ∀ (requests : List (KeepAliveRequest srv)) (out : Log A), Answered outside out requests := by
  intro requests
  induction requests with
  | nil => intro out; trivial
  | cons r rest ih =>
      intro out
      refine ⟨?_, ih _⟩
      obtain ⟨run, hrun⟩ := hrun r.parsed.conn
      have hnone : ∀ assigns : Option A, assigns.bind srv.sse = none := by
        intro assigns
        cases assigns with
        | none => rfl
        | some a => exact hsse a
      unfold Server.executeAndRespond
      rw [hws]
      split
      · rename_i hyes; cases hyes
      · dsimp only
        rw [hrun]
        dsimp only
        unfold Server.respond
        rw [hnone, hwrites, r.keepAlive]
        rfl

/-! ### The front of the stream -/

theorem KeepAliveRequest.bytes_ne_nil (hlib : Incremental srv.lib) (r : KeepAliveRequest srv) :
    r.bytes ≠ [] := by
  have hpos := (tryParse_some hlib r.parses).1
  rw [r.whole] at hpos
  exact List.length_pos_iff.mp hpos

theorem stream_eq_nil (hlib : Incremental srv.lib) {requests : List (KeepAliveRequest srv)}
    (h : stream requests = []) : requests = [] := by
  cases requests with
  | nil => rfl
  | cons r rest => exact absurd (List.append_eq_nil_iff.mp h).1 (r.bytes_ne_nil hlib)

/-- What has arrived of a stream begins with a whole request, or is the beginning of one. -/
theorem front_cases (hlib : Incremental srv.lib) {todo : List (KeepAliveRequest srv)}
    {buf ext : List UInt8} (hne : buf ≠ []) (h : buf ++ ext = stream todo) :
    (∃ r later rest, todo = r :: later ∧ buf = r.bytes ++ rest ∧ rest ++ ext = stream later ∧
        srv.tryParse buf = .ok (some r.parsed)) ∨
      (srv.tryParse buf = .ok none ∧ ext ≠ [] ∧ buf.length < srv.bodyLimit + defaultBufSize) := by
  cases todo with
  | nil => exact absurd (List.append_eq_nil_iff.mp h).1 hne
  | cons r later =>
      have hstream : stream (r :: later) = r.bytes ++ stream later := rfl
      rw [hstream] at h
      have hbuf : buf <+: r.bytes ++ stream later := by rw [← h]; exact List.prefix_append ..
      have hfirst : r.bytes <+: r.bytes ++ stream later := List.prefix_append ..
      rcases Nat.lt_or_ge buf.length r.bytes.length with hlt | hge
      · obtain ⟨more, hmore⟩ := List.prefix_of_prefix_length_le hbuf hfirst (Nat.le_of_lt hlt)
        have hext : ext ≠ [] := by
          rintro rfl
          have := congrArg List.length h
          simp only [List.length_append, List.length_nil] at this
          omega
        refine Or.inr ⟨?_, hext, Nat.lt_of_lt_of_le hlt r.fits⟩
        by_contra hsome
        have hparse : srv.tryParse buf = .ok (some r.parsed) := by
          have happ := tryParse_append hlib more hsome
          rw [hmore] at happ
          exact happ.symm.trans r.parses
        have hle := (tryParse_some hlib hparse).2
        rw [r.whole] at hle
        omega
      · obtain ⟨rest, hrest⟩ := List.prefix_of_prefix_length_le hfirst hbuf hge
        refine Or.inl ⟨r, later, rest, rfl, hrest.symm, ?_, ?_⟩
        · rw [← hrest, List.append_assoc] at h
          exact List.append_cancel_left h
        · rw [← hrest]
          have hsome : tryParseRequest (A := A) srv.lib r.bytes srv.bodyLimit srv.peerAddr ≠ .ok none := by
            intro hnone
            cases hnone.symm.trans r.parses
          exact (tryParse_append hlib rest hsome).trans r.parses

/-! ### The parse loop -/

def Server.parser (srv : Server A Ω) : Framing.Parser UInt8 ParseError (ParsedRequest A) :=
  requestParser srv.lib srv.bodyLimit srv.peerAddr

theorem parser_stable (hlib : Incremental srv.lib) : Framing.Stable srv.parser :=
  requestParser_stable hlib

section

variable {buf : List UInt8}

theorem parser_some {parsed : ParsedRequest A} (h : srv.tryParse buf = .ok (some parsed)) :
    srv.parser buf = .ok (some (parsed, parsed.bytesConsumed)) := requestParser_some h

theorem parser_none (h : srv.tryParse buf = .ok none) : srv.parser buf = .ok none :=
  requestParser_none h

theorem parser_error {e : ParseError} (h : srv.tryParse buf = .error e) : srv.parser buf = .error e :=
  requestParser_error h

end

/-- What the parse loop does with a request and with an error, as the handler of a drain. -/
def Server.handler (srv : Server A Ω) (outside : Outside Ω) :
    Framing.Handler (Log A) ParseError (ParsedRequest A) Stop :=
  { onFrame := srv.executeAndRespond outside
    onError := fun out e => (out ++ [.reject (rejection e)], .close) }

theorem fresh_room : Accum.fresh.filled < Accum.fresh.buf.length := by
  show 0 < (List.replicate defaultBufSize (0 : UInt8)).length
  rw [List.length_replicate]
  decide

theorem Accum.contents_length {a : Accum} (h : a.filled ≤ a.buf.length) :
    a.contents.length = a.filled := List.length_take_of_le h

/-- The buffer after a request: the unconsumed bytes are shifted to the front. -/
def Accum.shift (a : Accum) (n : Nat) : Accum :=
  { buf := copyWithin a.buf n a.filled, filled := a.filled - n }

/-- A full buffer, doubled. -/
def Accum.doubled (a : Accum) : Accum := { a with buf := resize a.buf (a.buf.length * 2) }

section

variable {a : Accum} {n : Nat}

@[simp] theorem shift_filled (a : Accum) (n : Nat) : (a.shift n).filled = a.filled - n := rfl

theorem shift_length (h : a.filled ≤ a.buf.length) (hn : n ≤ a.filled) :
    (a.shift n).buf.length = a.buf.length := copyWithin_length h hn

theorem shift_contents (h : a.filled ≤ a.buf.length) (hn : n ≤ a.filled) :
    (a.shift n).contents = a.contents.drop n := copyWithin_take h hn

@[simp] theorem doubled_filled (a : Accum) : a.doubled.filled = a.filled := rfl

@[simp] theorem doubled_length (a : Accum) : a.doubled.buf.length = a.buf.length * 2 :=
  resize_length (by omega)

theorem doubled_contents (hfull : a.filled = a.buf.length) : a.doubled.contents = a.contents := by
  show (resize a.buf (a.buf.length * 2)).take a.filled = a.buf.take a.filled
  rw [hfull, resize_take (by omega), List.take_length]

end

/-! Room in the buffer, and want of it. -/

section

variable {a : Accum} {out : Log A}

theorem makeRoom_room (h : a.filled ≠ a.buf.length) : srv.makeRoom a out = .ok a := if_neg h

theorem makeRoom_doubled (h : a.filled = a.buf.length) {maxBuf : Nat} (hmax : srv.maxBuf = some maxBuf)
    (hlt : a.buf.length < maxBuf) : srv.makeRoom a out = .ok a.doubled := by
  unfold Server.makeRoom
  rw [if_pos h, hmax]
  exact if_neg (Nat.not_le.mpr hlt)

theorem makeRoom_full (h : a.filled = a.buf.length) {maxBuf : Nat} (hmax : srv.maxBuf = some maxBuf)
    (hle : maxBuf ≤ a.buf.length) : srv.makeRoom a out = .error (out ++ [.reject response413], .close) := by
  unfold Server.makeRoom
  rw [if_pos h, hmax]
  exact if_pos hle

theorem makeRoom_overflow (h : a.filled = a.buf.length) (hmax : srv.maxBuf = none) :
    srv.makeRoom a out = .error (out, .panic) := by
  unfold Server.makeRoom
  rw [if_pos h, hmax]

/-- There is room or it is made; or the buffer has come to its limit, or to a limit that overflows. -/
theorem makeRoom_cases (srv : Server A Ω) (a : Accum) (out : Log A) :
    (a.filled ≠ a.buf.length ∧ srv.makeRoom a out = .ok a) ∨
    a.filled = a.buf.length ∧ ((srv.maxBuf = none ∧ srv.makeRoom a out = .error (out, .panic)) ∨
      ∃ maxBuf, srv.maxBuf = some maxBuf ∧
        ((maxBuf ≤ a.buf.length ∧ srv.makeRoom a out = .error (out ++ [.reject response413], .close)) ∨
          a.buf.length < maxBuf ∧ srv.makeRoom a out = .ok a.doubled)) := by
  by_cases hfull : a.filled = a.buf.length
  · refine Or.inr ⟨hfull, ?_⟩
    cases hmax : srv.maxBuf with
    | none => exact Or.inl ⟨rfl, makeRoom_overflow hfull hmax⟩
    | some maxBuf =>
        refine Or.inr ⟨maxBuf, rfl, ?_⟩
        rcases Nat.lt_or_ge a.buf.length maxBuf with hlt | hle
        · exact Or.inr ⟨hlt, makeRoom_doubled hfull hmax hlt⟩
        · exact Or.inl ⟨hle, makeRoom_full hfull hmax hle⟩
  · exact Or.inl ⟨hfull, makeRoom_room hfull⟩

end

/-! The turns of the loop: an error, an incomplete request, the last request and one before it. -/

section

variable {fuel : Nat} {a : Accum} {out out' : Log A} {parsed : ParsedRequest A}

theorem parseLoop_error {e : ParseError} (h : srv.tryParse a.contents = .error e) :
    srv.parseLoop outside (fuel + 1) a out = .stop (out ++ [.reject (rejection e)]) .close a.contents := by
  unfold Server.parseLoop
  rw [h]

theorem parseLoop_incomplete (h : srv.tryParse a.contents = .ok none) :
    srv.parseLoop outside (fuel + 1) a out =
      match srv.makeRoom a out with
      | .ok a' => .more a' out
      | .error (out', s) => .stop out' s a.contents := by
  unfold Server.parseLoop
  cases srv.makeRoom a out <;> simp only [h]

theorem parseLoop_stopped {s : Stop} (h : srv.tryParse a.contents = .ok (some parsed))
    (hx : srv.executeAndRespond outside out parsed = (out', some s)) :
    srv.parseLoop outside (fuel + 1) a out = .stop out' s (a.contents.drop parsed.bytesConsumed) := by
  unfold Server.parseLoop
  rw [h]
  simp only [hx]

theorem parseLoop_answered (h : srv.tryParse a.contents = .ok (some parsed))
    (hx : srv.executeAndRespond outside out parsed = (out', none)) :
    srv.parseLoop outside (fuel + 1) a out =
      if (a.shift parsed.bytesConsumed).filled = 0 then .more (a.shift parsed.bytesConsumed) out'
      else srv.parseLoop outside fuel (a.shift parsed.bytesConsumed) out' := by
  conv_lhs => unfold Server.parseLoop
  rw [h]
  simp only [hx]
  rfl

end

/-- The parse loop drains the filled part of its buffer, and leaves room behind the rest. -/
theorem parseLoop_drain (hlib : Incremental srv.lib) (outside : Outside Ω) :
    ∀ (fuel : Nat) (a : Accum) (out : Log A), a.filled ≤ a.buf.length → 0 < a.filled →
      a.filled < fuel →
      (a.filled = a.buf.length → srv.tryParse a.contents = .ok none →
        ∃ maxBuf, srv.maxBuf = some maxBuf ∧ a.buf.length < maxBuf) →
      match Framing.drain srv.parser (srv.handler outside) out a.contents with
      | .more out' rest => ∃ a', srv.parseLoop outside fuel a out = .more a' out' ∧
          a'.contents = rest ∧ a'.filled = rest.length ∧
          (a'.filled ≠ 0 → a'.filled < a'.buf.length)
      | .stop out' s rest => srv.parseLoop outside fuel a out = .stop out' s rest := by
  intro fuel
  induction fuel with
  | zero => intro a out _ _ h; omega
  | succ fuel ih =>
      intro a out hroom hpos hfuel hsmall
      have hlen := a.contents_length hroom
      have hne : a.contents ≠ [] := List.length_pos_iff.mp (by omega)
      cases hp : srv.tryParse a.contents with
      | error e =>
          rw [Framing.drain_error hne (parser_error hp)]
          exact parseLoop_error hp
      | ok o =>
          rcases o with _ | parsed
          · rw [Framing.drain_none (parser_none hp), parseLoop_incomplete hp]
            dsimp only
            by_cases hfull : a.filled = a.buf.length
            · obtain ⟨maxBuf, hmax, hlt⟩ := hsmall hfull hp
              rw [makeRoom_doubled hfull hmax hlt]
              refine ⟨_, rfl, doubled_contents hfull, hlen.symm, ?_⟩
              intro _
              rw [doubled_length, doubled_filled]
              omega
            · rw [makeRoom_room hfull]
              exact ⟨a, rfl, rfl, hlen.symm, fun _ => by omega⟩
          · have hcons := tryParse_some hlib hp
            rw [hlen] at hcons
            have hframe := parser_some hp
            rcases hx : srv.executeAndRespond outside out parsed with ⟨out', _ | s⟩
            · have hdrain := Framing.drain_frame (h := srv.handler outside) (parser_stable hlib) hframe hx
              have hbuf := shift_length hroom hcons.2
              rw [hdrain, parseLoop_answered hp hx, ← shift_contents hroom hcons.2]
              have hfilled := shift_filled a parsed.bytesConsumed
              generalize a.shift parsed.bytesConsumed = shifted at hbuf hfilled
              by_cases hzero : shifted.filled = 0
              · rw [if_pos hzero]
                have hnil : shifted.contents = [] := by rw [Accum.contents, hzero, List.take_zero]
                rw [hnil, Framing.drain_nil]
                exact ⟨_, rfl, hnil, hzero, fun h => absurd hzero h⟩
              · rw [if_neg hzero]
                exact ih shifted out' (by omega) (Nat.pos_of_ne_zero hzero) (by omega)
                  (fun hfull => by omega)
            · rw [Framing.drain_stop (h := srv.handler outside) (parser_stable hlib) hframe hx]
              exact parseLoop_stopped hp hx

/-- Of a stream of requests, a drain serves those that have arrived whole. -/
theorem drain_front (hlib : Incremental srv.lib) {todo : List (KeepAliveRequest srv)} :
    ∀ {out : Log A} {buf ext : List UInt8}, Answered outside out todo → buf ++ ext = stream todo →
      ∃ now later rest, todo = now ++ later ∧
        Framing.drain srv.parser (srv.handler outside) out buf = .more (served outside out now) rest ∧
        rest ++ ext = stream later ∧ (rest = [] ∨ srv.tryParse rest = .ok none) := by
  induction todo with
  | nil =>
      intro out buf ext _ h
      obtain ⟨rfl, rfl⟩ := List.append_eq_nil_iff.mp h
      exact ⟨[], [], [], rfl, rfl, rfl, Or.inl rfl⟩
  | cons r later ih =>
      intro out buf ext hans h
      by_cases hne : buf = []
      · subst hne
        exact ⟨[], r :: later, [], rfl, rfl, h, Or.inl rfl⟩
      rcases front_cases hlib hne h with ⟨r', later', rest, htodo, hbuf, hrest, hp⟩ | ⟨hp, -, -⟩
      · cases htodo
        obtain ⟨now, later2, rest', hsplit, hdrain, hext, hnone⟩ := ih hans.2 hrest
        refine ⟨r :: now, later2, rest', by rw [hsplit]; rfl, ?_, hext, hnone⟩
        have hx : (srv.handler outside).onFrame out r.parsed
            = ((srv.executeAndRespond outside out r.parsed).1, none) := Prod.ext rfl hans.1
        rw [Framing.drain_frame (parser_stable hlib) (parser_some hp) hx, r.whole, hbuf, List.drop_left]
        exact hdrain
      · refine ⟨[], r :: later, buf, rfl, ?_, h, Or.inr hp⟩
        exact Framing.drain_none (parser_none hp)

/-! ### One read -/

/-- The bytes in `accum`. -/
def accumBytes : Option Accum → List UInt8
  | some a => a.contents
  | none => []

theorem kept_bytes {a : Accum} (h : a.filled = a.contents.length) : accumBytes a.kept = a.contents := by
  unfold Accum.kept
  by_cases hzero : a.filled = 0
  · rw [if_pos hzero]
    exact (List.length_eq_zero_iff.mp (by omega)).symm
  · rw [if_neg hzero]
    rfl

theorem kept_room {a b : Accum} (h : a.filled ≠ 0 → a.filled < a.buf.length) (hb : a.kept = some b) :
    b.filled < b.buf.length := by
  unfold Accum.kept at hb
  by_cases hzero : a.filled = 0
  · rw [if_pos hzero] at hb
    cases hb
  · rw [if_neg hzero] at hb
    cases hb
    exact h hzero

theorem leftover_bytes (excess : Nat) (leftover : List UInt8) :
    accumBytes (leftoverAccum excess leftover) = leftover := by
  unfold leftoverAccum
  by_cases hnil : leftover = []
  · rw [hnil]; rfl
  · rw [if_neg (by simpa using hnil)]
    exact resize_take (by omega)

theorem leftover_room {excess : Nat} {leftover : List UInt8} {b : Accum}
    (hlt : leftover.length < defaultBufSize) (hb : leftoverAccum excess leftover = some b) :
    b.filled < b.buf.length := by
  unfold leftoverAccum at hb
  by_cases hnil : leftover = []
  · rw [hnil] at hb; cases hb
  · rw [if_neg (by simpa using hnil)] at hb
    cases hb
    show leftover.length < (resize leftover _).length
    rw [resize_length (by omega)]
    omega

theorem bytes_of_over {inc : Incoming} (h : inc.segs = []) : inc.bytes = [] := pending_eq_nil.mpr h

/-- A read gets the front of what has yet to arrive. -/
theorem readUpTo_ok {incoming rest : Incoming} {limit : Segment UInt8 → Nat} {returned : List UInt8}
    (hread : incoming.readUpTo limit = (.ok returned, rest)) :
    returned ++ rest.bytes = incoming.bytes ∧ returned = (pull limit incoming.segs).1 := by
  unfold Incoming.readUpTo at hread
  split at hread
  · cases hread
  · cases hread
    exact ⟨pull_pending _ _, rfl⟩

/-- The sum that bounds the buffer is one of `usize`. -/
def Server.Fits (srv : Server A Ω) : Prop := srv.bodyLimit + defaultBufSize < 2 ^ 64

theorem Server.Fits.maxBuf (h : srv.Fits) : srv.maxBuf = some (srv.bodyLimit + defaultBufSize) :=
  RustStd.unsigned_of_lt h _

/-- The next read fills the buffer with the beginning of a request, and what the build makes of the sum that
bounds the buffer is no more than that, or a panic. -/
def Accum.Overruns (srv : Server A Ω) (a : Accum) (incoming : Incoming) : Prop :=
  ∃ got rest, incoming.read (a.buf.drop a.filled).length = (.ok got, rest) ∧ got ≠ [] ∧
    srv.tryParse (a.contents ++ got) = .ok none ∧
    ∀ maxBuf, srv.maxBuf = some maxBuf → maxBuf ≤ (a.contents ++ got).length

section

variable {a : Accum} {incoming : Incoming} {out : Log A} {todo : List (KeepAliveRequest srv)}

/-- The bytes of the buffer behind a read. -/
theorem read_contents (hroom : a.filled < a.buf.length) (returned : List UInt8) :
    (a.contents ++ returned).length = a.filled + returned.length ∧
      (Accum.mk (a.contents ++ returned) (a.filled + returned.length)).contents = a.contents ++ returned := by
  have hlen : (a.contents ++ returned).length = a.filled + returned.length := by
    rw [List.length_append, a.contents_length (Nat.le_of_lt hroom)]
  exact ⟨hlen, List.take_of_length_le (Nat.le_of_eq hlen)⟩

/-- At the end of the stream nothing is read. -/
theorem not_overruns_over (hover : incoming.segs = []) : ¬ a.Overruns srv incoming := by
  rintro ⟨got, rest, hread, hgot, -⟩
  unfold Incoming.read at hread
  obtain ⟨rest', h | h⟩ := Incoming.readUpTo_over (vecLimit (a.buf.drop a.filled).length) hover
  · cases h.symm.trans hread
  · cases h.symm.trans hread
    exact hgot rfl

/-- A sum that does not overflow is more than the beginning of a request. -/
theorem not_overruns_of_fits (hlib : Incremental srv.lib) (hfits : srv.Fits)
    (hstream : a.contents ++ incoming.bytes = stream todo) : ¬ a.Overruns srv incoming := by
  rintro ⟨got, rest, hread, hgot, hincomplete, hlimit⟩
  have hfront : (a.contents ++ got) ++ rest.bytes = stream todo := by
    rw [List.append_assoc, (readUpTo_ok hread).1, hstream]
  rcases front_cases hlib (by simp [hgot]) hfront with ⟨_, _, _, _, _, _, hp⟩ | ⟨-, -, hlt⟩
  · cases hp.symm.trans hincomplete
  · exact absurd (hlimit _ hfits.maxBuf) (Nat.not_le.mpr hlt)

/-- `vec_read_loop` then stops, and executes nothing more. -/
theorem vecReadLoop_overruns (outside : Outside Ω) (out : Log A) (hroom : a.filled < a.buf.length)
    (h : a.Overruns srv incoming) : ∃ out' stop unread rest,
      srv.vecReadLoop outside a incoming out = (.stop out' stop unread, rest) ∧ executions out' = executions out := by
  obtain ⟨got, rest, hread, hgot, hincomplete, hlimit⟩ := h
  have hpos := List.length_pos_iff.mpr hgot
  obtain ⟨hlen, hfull⟩ := read_contents hroom got
  unfold Server.vecReadLoop
  rw [makeRoom_room (by omega)]
  dsimp only
  rw [hread]
  dsimp only
  rw [if_neg (by omega), parseLoop_incomplete (by rw [hfull]; exact hincomplete)]
  cases hmax : srv.maxBuf with
  | none =>
      rw [makeRoom_overflow hlen.symm hmax]
      exact ⟨_, _, _, _, rfl, rfl⟩
  | some maxBuf =>
      rw [makeRoom_full hlen.symm hmax (hlimit maxBuf hmax)]
      exact ⟨_, _, _, _, rfl, by simp [executions]⟩

/-- At the end of the stream, `vec_read_loop` closes the connection. -/
theorem vecReadLoop_over (srv : Server A Ω) (outside : Outside Ω) (out : Log A)
    (hroom : a.filled < a.buf.length) (hover : incoming.segs = []) :
    ∃ unread rest, srv.vecReadLoop outside a incoming out = (.stop out .close unread, rest) := by
  unfold Server.vecReadLoop
  rw [makeRoom_room (by omega)]
  dsimp only
  unfold Incoming.read
  obtain ⟨rest, hread | hread⟩ :=
    Incoming.readUpTo_over (vecLimit (a.buf.drop a.filled).length) hover
  · rw [hread]
    exact ⟨_, _, rfl⟩
  · rw [hread]
    exact ⟨_, _, rfl⟩

/-- Before it, `vec_read_loop` serves the requests that are whole by now and keeps the rest. -/
theorem vecReadLoop_more (hlib : Incremental srv.lib) (hroom : a.filled < a.buf.length)
    (hans : Answered outside out todo) (hstream : a.contents ++ incoming.bytes = stream todo)
    (hmore : incoming.segs ≠ []) (hnot : ¬ a.Overruns srv incoming) :
    ∃ a' rest now later,
      srv.vecReadLoop outside a incoming out = (.more a' (served outside out now), rest) ∧
        todo = now ++ later ∧ a'.contents ++ rest.bytes = stream later ∧
        (a'.contents = [] ∨ srv.tryParse a'.contents = .ok none) ∧ a'.filled = a'.contents.length ∧
        (a'.filled ≠ 0 → a'.filled < a'.buf.length) ∧ rest.bytes.length < incoming.bytes.length := by
  have htail : 0 < (a.buf.drop a.filled).length := by rw [List.length_drop]; omega
  obtain ⟨got, rest, hread, -, -, hgot, hbytes, -⟩ := Incoming.readUpTo_more _ (vecLimit_pos htail) hmore
  have hpos := List.length_pos_iff.mpr hgot
  obtain ⟨hall, hfull⟩ := read_contents hroom got
  have hfront : (a.contents ++ got) ++ rest.bytes = stream todo := by
    rw [List.append_assoc, hbytes, hstream]
  have hsmall : srv.tryParse (a.contents ++ got) = .ok none →
      ∃ maxBuf, srv.maxBuf = some maxBuf ∧ (a.contents ++ got).length < maxBuf := by
    intro hincomplete
    by_contra hno
    refine hnot ⟨got, rest, hread, hgot, hincomplete, fun maxBuf hmax => ?_⟩
    by_contra hlt
    exact hno ⟨maxBuf, hmax, Nat.lt_of_not_le hlt⟩
  obtain ⟨now, later, left, htodo, hdrain, hleft, hnone⟩ := drain_front hlib hans hfront
  have hloop := parseLoop_drain hlib outside (a.filled + got.length + 1)
    { buf := a.contents ++ got, filled := a.filled + got.length } out (Nat.le_of_eq hall.symm)
    (by show 0 < a.filled + got.length; omega) (Nat.lt_succ_self _) (fun _ => by rw [hfull]; exact hsmall)
  rw [hfull, hdrain] at hloop
  obtain ⟨a', hparse, hcontents, hfilled, hroom'⟩ := hloop
  refine ⟨a', rest, now, later, ?_, htodo, by rw [hcontents]; exact hleft,
    by rw [hcontents]; exact hnone, by rw [hcontents]; exact hfilled, hroom', ?_⟩
  · unfold Server.vecReadLoop
    rw [makeRoom_room (by omega)]
    dsimp only
    unfold Incoming.read
    rw [hread]
    dsimp only
    rw [if_neg (by omega)]
    exact congrArg (·, rest) hparse
  · rw [← hbytes, List.length_append]
    omega

/-- A leased read serves the request it begins with if that is whole, and keeps what is behind it. -/
theorem parseLeased_spec (hlib : Incremental srv.lib) {lease ext : List UInt8} (hne : lease ≠ [])
    (hfits : lease.length ≤ defaultBufSize) (hans : Answered outside out todo)
    (hstream : lease ++ ext = stream todo) (excess : Nat) :
    ∃ accum now later, srv.parseLeased outside excess lease out = .more accum (served outside out now) ∧
      todo = now ++ later ∧ accumBytes accum ++ ext = stream later ∧
      (∀ b, accum = some b → b.filled < b.buf.length) ∧
      ((∃ parsed, srv.tryParse lease = .ok (some parsed) ∧
          accumBytes accum = lease.drop parsed.bytesConsumed) ∨
        (srv.tryParse lease = .ok none ∧ ext ≠ [])) := by
  have hpos := List.length_pos_iff.mpr hne
  unfold Server.parseLeased
  rcases front_cases hlib hne hstream with ⟨r, later, rest, rfl, hlease, hrest, hp⟩ | ⟨hp, hext, -⟩
  · have hconsumed := (tryParse_some hlib hp).1
    have hdrop : lease.drop r.parsed.bytesConsumed = rest := by
      rw [r.whole, hlease, List.drop_left]
    have hx : srv.executeAndRespond outside out r.parsed
        = ((srv.executeAndRespond outside out r.parsed).1, none) := Prod.ext rfl hans.1
    rw [hp]
    dsimp only
    rw [hx, hdrop]
    refine ⟨leftoverAccum excess rest, [r], later, rfl, rfl, by rw [leftover_bytes]; exact hrest, ?_, ?_⟩
    · intro b hb
      refine leftover_room ?_ hb
      rw [← hdrop, List.length_drop]
      omega
    · exact Or.inl ⟨r.parsed, rfl, by rw [leftover_bytes, hdrop]⟩
  · rw [hp]
    refine ⟨_, [], todo, rfl, rfl, ?_, ?_, Or.inr ⟨rfl, hext⟩⟩
    · show (resize lease _).take lease.length ++ ext = stream todo
      rw [resize_take (by omega)]
      exact hstream
    · rintro b hb
      cases hb
      show lease.length < (resize lease _).length
      rw [resize_length (by omega)]
      omega

/-- What is left of an incomplete request is not the end of the stream. -/
theorem more_to_come (hlib : Incremental srv.lib) {rest : List UInt8}
    (hrest : rest ++ incoming.bytes = stream todo) (hne : rest ≠ [])
    (hnone : srv.tryParse rest = .ok none) : incoming.segs ≠ [] := by
  intro hover
  rcases front_cases hlib hne hrest with ⟨_, _, _, _, _, _, hp⟩ | ⟨-, hext, -⟩
  · cases hp.symm.trans hnone
  · exact hext (bytes_of_over hover)

end

/-! ### One cycle -/

def State.buffered (s : State A) : List UInt8 := accumBytes s.accum

/-- What holds before every cycle: some requests were served, and the rest is buffered or to come. -/
structure Invariant (outside : Outside Ω) (requests : List (KeepAliveRequest srv)) (s : State A) :
    Prop where
  room : ∀ a, s.accum = some a → a.filled < a.buf.length
  progress : ∃ before todo, requests = before ++ todo ∧ s.out = served outside [] before ∧
    s.buffered ++ s.incoming.bytes = stream todo

/-- The stream is over, and there are bytes in `accum`. -/
def Stranded (s : State A) : Prop := s.incoming.segs = [] ∧ s.buffered ≠ []

/-- A leased read is about to get the end of the stream, with bytes behind its first request. -/
def LosesTail (srv : Server A Ω) (buffers : Buffers) (s : State A) : Prop :=
  s.accum = none ∧ srv.isTls = false ∧ buffers.leases s.cycle = true ∧
    ∃ seg parsed, s.incoming.segs = [seg] ∧ seg.bytes.length ≤ defaultBufSize ∧
      srv.tryParse seg.bytes = .ok (some parsed) ∧ parsed.bytesConsumed < seg.bytes.length

/-- A cycle is about to overrun its buffer. -/
def Overruns (srv : Server A Ω) (s : State A) : Prop := ∃ a, s.accum = some a ∧ a.Overruns srv s.incoming

/-- What every cycle makes smaller: two for each byte to come, and one for an `accum` to be made. -/
def State.weight (s : State A) : Nat :=
  2 * s.incoming.bytes.length + if s.accum.isSome then 0 else 1

/-- What a cycle makes of a stream of requests. -/
def CycleSpec (outside : Outside Ω) (buffers : Buffers) (requests : List (KeepAliveRequest srv))
    (s : State A) : State A ⊕ Outcome A → Prop
  | .inl s' => Invariant outside requests s' ∧ s'.weight < s.weight ∧
      (Stranded s' ↔ LosesTail srv buffers s)
  | .inr outcome => s.incoming.segs = [] ∧ outcome.out = s.out ∧ outcome.stop = .close

theorem weight_of_fewer {s s' : State A}
    (h : s'.incoming.bytes.length < s.incoming.bytes.length) : s'.weight < s.weight := by
  unfold State.weight
  split <;> split <;> omega

section

variable {requests : List (KeepAliveRequest srv)} {buffers : Buffers} {s : State A}

theorem buffered_eq {a : Accum} (ha : s.accum = some a) : s.buffered = a.contents := by
  unfold State.buffered
  rw [ha]
  rfl

/-- A cycle with bytes in `accum`. -/
theorem vec_cycle (hlib : Incremental srv.lib) (hans : Answered outside [] requests)
    (hi : Invariant outside requests s) (hnot : ¬ Overruns srv s) {a : Accum} (ha : s.accum = some a) :
    CycleSpec outside buffers requests s (srv.step outside buffers s) := by
  obtain ⟨before, todo, rfl, hout, hstream⟩ := hi.progress
  have hroom := hi.room a ha
  rw [buffered_eq ha] at hstream
  have hanswered := (answered_append hans).2
  rw [← hout] at hanswered
  unfold Server.step
  rw [ha]
  dsimp only
  by_cases hover : s.incoming.segs = []
  · obtain ⟨unread, rest, hread⟩ := vecReadLoop_over srv outside s.out
      hroom hover
    rw [hread]
    exact ⟨hover, rfl, rfl⟩
  · obtain ⟨a', rest, now, later, hread, rfl, hrest, hnone, hfilled, hroom', hless⟩ :=
      vecReadLoop_more hlib hroom hanswered hstream hover fun h => hnot ⟨a, ha, h⟩
    rw [hread]
    refine ⟨⟨fun b hb => kept_room hroom' hb, before ++ now, later, (List.append_assoc ..).symm, ?_, ?_⟩,
      weight_of_fewer hless, ?_⟩
    · rw [served_append, ← hout]
    · show accumBytes a'.kept ++ rest.bytes = stream later
      rw [kept_bytes hfilled]
      exact hrest
    · constructor
      · rintro ⟨hover', hne⟩
        have hne : accumBytes a'.kept ≠ [] := hne
        rw [kept_bytes hfilled] at hne
        rcases hnone with hnil | hnone
        · exact absurd hnil hne
        · exact absurd hover' (more_to_come hlib hrest hne hnone)
      · rintro ⟨hnone', -⟩
        rw [ha] at hnone'
        cases hnone'

/-- A cycle in which `accum` is only made. -/
theorem fresh_cycle (hi : Invariant outside requests s) (hnone : s.accum = none)
    (hvec : (srv.isTls || !buffers.leases s.cycle) = true) :
    CycleSpec outside buffers requests s (srv.step outside buffers s) := by
  obtain ⟨before, todo, hsplit, hout, hstream⟩ := hi.progress
  have hbuffered : s.buffered = [] := by unfold State.buffered; rw [hnone]; rfl
  unfold Server.step
  rw [hnone]
  dsimp only
  rw [if_pos hvec]
  refine ⟨⟨?_, before, todo, hsplit, hout, ?_⟩, ?_, ?_⟩
  · rintro b hb
    cases hb
    exact fresh_room
  · rw [hbuffered] at hstream
    exact hstream
  · unfold State.weight
    rw [hnone]
    exact Nat.lt_succ_self _
  · constructor
    · rintro ⟨-, hne⟩
      exact absurd rfl hne
    · rintro ⟨-, htls, hlease, -⟩
      rw [htls, hlease] at hvec
      cases hvec

/-- A cycle with a leased read. -/
theorem leased_cycle (hlib : Incremental srv.lib) (hans : Answered outside [] requests)
    (hi : Invariant outside requests s) (hnone : s.accum = none)
    (hlease : (srv.isTls || !buffers.leases s.cycle) = false) :
    CycleSpec outside buffers requests s (srv.step outside buffers s) := by
  obtain ⟨before, todo, rfl, hout, hstream⟩ := hi.progress
  have hbuffered : s.buffered = [] := by unfold State.buffered; rw [hnone]; rfl
  rw [hbuffered, List.nil_append] at hstream
  have hanswered := (answered_append hans).2
  rw [← hout] at hanswered
  unfold Server.step
  rw [hnone]
  dsimp only
  rw [if_neg (by rw [hlease]; nofun)]
  unfold Incoming.readLease
  by_cases hover : s.incoming.segs = []
  · obtain ⟨rest, hread | hread⟩ := Incoming.readUpTo_over (fun _ => defaultBufSize) hover
    · rw [hread]
      exact ⟨hover, rfl, rfl⟩
    · rw [hread]
      exact ⟨hover, rfl, rfl⟩
  · obtain ⟨lease, rest, hread, hgot, hsegs, hne, hbytes, -⟩ :=
      Incoming.readUpTo_more (fun _ => defaultBufSize) (fun _ => by decide) hover
    have hfits : lease.length ≤ defaultBufSize := by
      rw [hgot]
      exact pull_length_le fun _ => Nat.le_refl _
    have hpos := List.length_pos_iff.mpr hne
    obtain ⟨accum, now, later, hparse, rfl, hrest, hroom, hcases⟩ :=
      parseLeased_spec hlib hne hfits hanswered (hbytes.trans hstream) (buffers.excess s.cycle)
    rw [hread]
    dsimp only
    rw [if_neg (by omega), hparse]
    refine ⟨⟨hroom, before ++ now, later, (List.append_assoc ..).symm, ?_, hrest⟩, ?_, ?_⟩
    · rw [served_append, ← hout]
    · refine weight_of_fewer ?_
      show rest.bytes.length < s.incoming.bytes.length
      rw [← hbytes, List.length_append]
      omega
    · -- nothing is left to come exactly if the read got all of the last segment
      have hlast := pull_rest_eq_nil (fun _ => defaultBufSize) hover
      rw [← hsegs] at hlast
      constructor
      · rintro ⟨hover', hleft⟩
        have hover' : rest.segs = [] := hover'
        have hleft : accumBytes accum ≠ [] := hleft
        obtain ⟨seg, hseg, hle⟩ := hlast.mp hover'
        have hwhole : lease = seg.bytes := by rw [hgot, hseg, pull_whole hle]
        rcases hcases with ⟨parsed, hp, hbuf⟩ | ⟨-, hext⟩
        · refine ⟨hnone, ?_, ?_, seg, parsed, hseg, hle, hwhole ▸ hp, ?_⟩
          · exact (Bool.or_eq_false_iff.mp hlease).1
          · simpa using (Bool.or_eq_false_iff.mp hlease).2
          · rw [hbuf, hwhole] at hleft
            simpa [List.drop_eq_nil_iff] using hleft
        · exact absurd (bytes_of_over hover') hext
      · rintro ⟨-, -, -, seg, parsed, hseg, hle, hp, hbehind⟩
        have hwhole : lease = seg.bytes := by rw [hgot, hseg, pull_whole hle]
        have hover' : rest.segs = [] := hlast.mpr ⟨seg, hseg, hle⟩
        refine ⟨hover', ?_⟩
        show accumBytes accum ≠ []
        rw [hwhole] at hcases
        rcases hcases with ⟨parsed', hp', hbuf⟩ | ⟨-, hext⟩
        · cases hp.symm.trans hp'
          rw [hbuf]
          simpa [List.drop_eq_nil_iff] using hbehind
        · exact absurd (bytes_of_over hover') hext

/-- **One cycle** keeps the invariant, or ends the connection at the end of the stream. -/
theorem step_spec (buffers : Buffers) (hlib : Incremental srv.lib)
    (hans : Answered outside [] requests)
    (hi : Invariant outside requests s) (hnot : ¬ Overruns srv s) :
    CycleSpec outside buffers requests s (srv.step outside buffers s) := by
  cases ha : s.accum with
  | some a => exact vec_cycle hlib hans hi hnot ha
  | none =>
      cases hvec : srv.isTls || !buffers.leases s.cycle with
      | true => exact fresh_cycle hi ha hvec
      | false => exact leased_cycle hlib hans hi ha hvec

/-- A cycle that overruns its buffer is the last. -/
theorem overruns_cycle (outside : Outside Ω) (buffers : Buffers) (hroom : ∀ a, s.accum = some a → a.filled < a.buf.length)
    (h : Overruns srv s) :
    ∃ outcome, srv.step outside buffers s = .inr outcome ∧ executions outcome.out = executions s.out := by
  obtain ⟨a, ha, hoverruns⟩ := h
  obtain ⟨out', stop, unread, rest, hloop, hexec⟩ := vecReadLoop_overruns outside s.out (hroom a ha) hoverruns
  unfold Server.step
  rw [ha]
  dsimp only
  rw [hloop]
  exact ⟨_, rfl, hexec⟩

/-- So one that another cycle follows does not. -/
theorem not_overruns_of_step (hi : Invariant outside requests s) {s' : State A}
    (hstep : srv.step outside buffers s = .inl s') : ¬ Overruns srv s := by
  intro h
  obtain ⟨outcome, hout, -⟩ := overruns_cycle outside buffers hi.room h
  cases hout.symm.trans hstep

theorem step_cycle {s' : State A} (h : srv.step outside buffers s = .inl s') :
    s'.cycle = s.cycle + 1 := by
  unfold Server.step at h
  split at h
  · split at h
    · cases h; rfl
    · cases h
  · split at h
    · cases h; rfl
    · split at h
      · cases h
      · split at h
        · cases h
        · split at h
          · cases h; rfl
          · cases h

end

/-! ### The whole run -/

/-- The variables the loop comes through, cycle after cycle. -/
inductive Reached (srv : Server A Ω) (outside : Outside Ω) (buffers : Buffers) (incoming : Incoming) :
    State A → Prop
  | init : Reached srv outside buffers incoming (.init incoming)
  | step {s s' : State A} : Reached srv outside buffers incoming s →
      srv.step outside buffers s = .inl s' → Reached srv outside buffers incoming s'

def Buffers.withoutLeases (buffers : Buffers) : Buffers := { buffers with leases := fun _ => false }

/-- Every request is executed and answered, in order, as it is where no lease is ever available. -/
structure ServesAll (srv : Server A Ω) (outside : Outside Ω) (buffers : Buffers) (incoming : Incoming)
    (requests : List (KeepAliveRequest srv)) : Prop where
  executed : executions (srv.handleConnection outside buffers incoming).out
    = requests.map (·.parsed.conn)
  answered : (responses (srv.handleConnection outside buffers incoming).out).length = requests.length
  sameRecord : (srv.handleConnection outside buffers incoming).out
    = (srv.handleConnection outside buffers.withoutLeases incoming).out
  sameEnd : (srv.handleConnection outside buffers incoming).stop
    = (srv.handleConnection outside buffers.withoutLeases incoming).stop

section

variable {requests : List (KeepAliveRequest srv)} {buffers : Buffers} {incoming : Incoming}
  {s : State A}

theorem invariant_init (hstream : incoming.bytes = stream requests) :
    Invariant outside requests (State.init incoming) where
  room := nofun
  progress := ⟨[], requests, rfl, rfl, hstream⟩

theorem weight_init (incoming : Incoming) :
    (State.init (A := A) incoming).weight < 2 * incoming.bytes.length + 2 := Nat.lt_succ_self _

/-- A state of the run, with the fuel the run has left there. -/
theorem reached_run (hlib : Incremental srv.lib) (hans : Answered outside [] requests)
    (hstream : incoming.bytes = stream requests) (hs : Reached srv outside buffers incoming s) :
    Invariant outside requests s ∧ ∃ fuel, s.weight < fuel ∧
      srv.handleConnection outside buffers incoming = srv.run outside buffers fuel s := by
  induction hs with
  | init => exact ⟨invariant_init hstream, _, weight_init incoming, rfl⟩
  | @step s s' _ hstep ih =>
      obtain ⟨hi, fuel, hfuel, hrun⟩ := ih
      have hspec := step_spec buffers hlib hans hi (not_overruns_of_step hi hstep)
      rw [hstep] at hspec
      obtain ⟨hi', hless, -⟩ := hspec
      obtain ⟨fuel, rfl⟩ : ∃ k, fuel = k + 1 := ⟨fuel - 1, by omega⟩
      refine ⟨hi', fuel, by omega, ?_⟩
      rw [hrun, Server.run, hstep]

/-- No run comes to overrun its buffer if the sum that bounds it does not overflow. -/
theorem never_overruns (hlib : Incremental srv.lib) (hans : Answered outside [] requests) (hfits : srv.Fits)
    (hstream : incoming.bytes = stream requests) (hs : Reached srv outside buffers incoming s) : ¬ Overruns srv s := by
  rintro ⟨a, ha, hoverruns⟩
  obtain ⟨before, todo, -, -, hrest⟩ := (reached_run hlib hans hstream hs).1.progress
  rw [buffered_eq ha] at hrest
  exact not_overruns_of_fits hlib hfits hrest hoverruns

/-- A run that never comes to lose a tail or to overrun its buffer serves every request. -/
theorem run_serves (hlib : Incremental srv.lib) (hans : Answered outside [] requests)
    (hkeeps : ∀ s, Reached srv outside buffers incoming s → ¬ LosesTail srv buffers s ∧ ¬ Overruns srv s) :
    ∀ (fuel : Nat) (s : State A), Reached srv outside buffers incoming s →
      Invariant outside requests s → ¬ Stranded s → s.weight < fuel →
      (srv.run outside buffers fuel s).out = served outside [] requests ∧
        (srv.run outside buffers fuel s).stop = .close := by
  intro fuel
  induction fuel with
  | zero => intro s _ _ _ h; omega
  | succ fuel ih =>
      intro s hs hi hnot hfuel
      have hspec := step_spec buffers hlib hans hi (hkeeps s hs).2
      unfold Server.run
      cases hstep : srv.step outside buffers s with
      | inl s' =>
          rw [hstep] at hspec
          obtain ⟨hi', hless, hstranded⟩ := hspec
          have hnot' : ¬ Stranded s' := fun h => (hkeeps s hs).1 (hstranded.mp h)
          exact ih s' (hs.step hstep) hi' hnot' (by omega)
      | inr outcome =>
          rw [hstep] at hspec
          obtain ⟨hover, hout, hstop⟩ := hspec
          refine ⟨?_, hstop⟩
          -- nothing is to come and nothing is buffered, so every request was served
          obtain ⟨before, todo, rfl, hserved, hrest⟩ := hi.progress
          have hbuffered : s.buffered = [] := by
            by_contra hne
            exact hnot ⟨hover, hne⟩
          rw [hbuffered, bytes_of_over hover] at hrest
          have htodo := stream_eq_nil hlib hrest.symm
          rw [htodo, List.append_nil, ← hserved]
          exact hout

/-- Where some requests are left to serve, not all are among the executions. -/
theorem executions_ne {before todo : List (KeepAliveRequest srv)} (hans : Answered outside [] (before ++ todo))
    (htodo : todo ≠ []) {out : Log A} (hout : executions out = executions (served outside [] before)) :
    executions out ≠ (before ++ todo).map (·.parsed.conn) := by
  intro hall
  have hcount := congrArg List.length hall
  rw [hout, (served_record (answered_append hans).1).1] at hcount
  simp only [executions, List.filterMap_nil, List.nil_append, List.length_map, List.length_append] at hcount
  exact htodo (List.length_eq_zero_iff.mp (by omega))

/-- Bytes in `accum` at the end of the stream are requests that are never served. -/
theorem stranded_run (buffers : Buffers) (hlib : Incremental srv.lib)
    (hans : Answered outside [] requests)
    (hi : Invariant outside requests s) (hstranded : Stranded s) {fuel : Nat} (hfuel : s.weight < fuel) :
    executions (srv.run outside buffers fuel s).out ≠ requests.map (·.parsed.conn) := by
  obtain ⟨before, todo, rfl, hserved, hrest⟩ := hi.progress
  obtain ⟨hover, hne⟩ := hstranded
  have hspec := step_spec buffers hlib hans hi fun ⟨_, _, hoverruns⟩ => not_overruns_over hover hoverruns
  obtain ⟨fuel, rfl⟩ : ∃ k, fuel = k + 1 := ⟨fuel - 1, by omega⟩
  refine executions_ne hans ?_ ?_
  · rintro rfl
    exact hne (List.append_eq_nil_iff.mp hrest).1
  · unfold Server.run
    cases hstep : srv.step outside buffers s with
    | inr outcome =>
        rw [hstep] at hspec
        rw [← hserved]
        exact congrArg executions hspec.2.1
    | inl s' =>
        -- no byte is to come and `accum` is there, so no cycle can follow
        rw [hstep] at hspec
        have hsome : s.accum.isSome = true := by
          cases ha : s.accum with
          | none => exact absurd (by unfold State.buffered; rw [ha]; rfl) hne
          | some a => rfl
        have hzero : s.weight = 0 := by
          unfold State.weight
          rw [bytes_of_over hover, hsome]
          rfl
        exact absurd hspec.2.1 (by omega)

/-- The request whose beginning overruns the buffer is never served either. -/
theorem overruns_run (buffers : Buffers) (hans : Answered outside [] requests)
    (hi : Invariant outside requests s) (hoverruns : Overruns srv s) {fuel : Nat} (hfuel : s.weight < fuel) :
    executions (srv.run outside buffers fuel s).out ≠ requests.map (·.parsed.conn) := by
  obtain ⟨before, todo, rfl, hserved, hrest⟩ := hi.progress
  obtain ⟨fuel, rfl⟩ : ∃ k, fuel = k + 1 := ⟨fuel - 1, by omega⟩
  refine executions_ne hans ?_ ?_
  · rintro rfl
    obtain ⟨a, -, hread⟩ := hoverruns
    exact not_overruns_over (pending_eq_nil.mp (List.append_eq_nil_iff.mp hrest).2) hread
  · obtain ⟨outcome, hstep, hexec⟩ := overruns_cycle outside buffers hi.room hoverruns
    unfold Server.run
    rw [hstep, ← hserved]
    exact hexec

theorem not_stranded_init (incoming : Incoming) : ¬ Stranded (State.init (A := A) incoming) :=
  fun h => h.2 rfl

/-- Every request is served in a run that keeps them all. -/
theorem serves_of_kept (hlib : Incremental srv.lib) (hans : Answered outside [] requests)
    (hstream : incoming.bytes = stream requests)
    (hkeeps : ∀ s, Reached srv outside buffers incoming s → ¬ LosesTail srv buffers s ∧ ¬ Overruns srv s) :
    (srv.handleConnection outside buffers incoming).out = served outside [] requests ∧
      (srv.handleConnection outside buffers incoming).stop = .close :=
  run_serves hlib hans hkeeps _ _ .init (invariant_init hstream) (not_stranded_init incoming) (weight_init incoming)

/-- A run that comes to overrun its buffer does not execute them all. -/
theorem executions_of_overruns (hlib : Incremental srv.lib) (hans : Answered outside [] requests)
    (hstream : incoming.bytes = stream requests) (hs : Reached srv outside buffers incoming s)
    (hoverruns : Overruns srv s) :
    executions (srv.handleConnection outside buffers incoming).out ≠ requests.map (·.parsed.conn) := by
  obtain ⟨hi, fuel, hfuel, hrun⟩ := reached_run hlib hans hstream hs
  rw [hrun]
  exact overruns_run buffers hans hi hoverruns hfuel

/-- Nor does one that comes to lose a tail. -/
theorem executions_of_losesTail (hlib : Incremental srv.lib) (hans : Answered outside [] requests)
    (hstream : incoming.bytes = stream requests) (hs : Reached srv outside buffers incoming s)
    (hloses : LosesTail srv buffers s) :
    executions (srv.handleConnection outside buffers incoming).out ≠ requests.map (·.parsed.conn) := by
  obtain ⟨hi, -⟩ := reached_run hlib hans hstream hs
  have hspec := step_spec buffers hlib hans hi fun ⟨a, ha, _⟩ => Option.some_ne_none a (ha.symm.trans hloses.1)
  cases hstep : srv.step outside buffers s with
  | inr outcome =>
      rw [hstep] at hspec
      obtain ⟨-, -, -, seg, -, hseg, -⟩ := hloses
      rw [hspec.1] at hseg
      cases hseg
  | inl s' =>
      rw [hstep] at hspec
      obtain ⟨hi', fuel, hfuel, hrun⟩ := reached_run hlib hans hstream (hs.step hstep)
      rw [hrun]
      exact stranded_run buffers hlib hans hi' (hspec.2.2.mpr hloses) hfuel

end

/--
**Leased reads serve every request unless one of them gets the end of the stream
with more than one request.**  For every stream of complete keep-alive requests,
however it is cut and whenever there is a lease: every request is executed and
answered, in order and as without leases, if and only if the loop never comes to a
leased read that gets all that is left of the stream and finds bytes behind the
first request there, and neither this run nor the one without leases comes to
overrun its buffer.  The latter takes a limit whose sum with the size of a buffer
overflows (`never_overruns`).
-/
theorem leased_reads_serve_all (srv : Server A Ω) (outside : Outside Ω) (buffers : Buffers)
    (incoming : Incoming) (requests : List (KeepAliveRequest srv)) (hlib : Incremental srv.lib)
    (hans : Answered outside [] requests) (hstream : incoming.bytes = stream requests) :
    ServesAll srv outside buffers incoming requests ↔
      (∀ s, Reached srv outside buffers incoming s → ¬ LosesTail srv buffers s ∧ ¬ Overruns srv s) ∧
        ∀ s, Reached srv outside buffers.withoutLeases incoming s → ¬ Overruns srv s := by
  constructor
  · intro hall
    refine ⟨fun s hs => ⟨fun hloses => ?_, fun hoverruns => ?_⟩, fun s hs hoverruns => ?_⟩
    · exact executions_of_losesTail hlib hans hstream hs hloses hall.executed
    · exact executions_of_overruns hlib hans hstream hs hoverruns hall.executed
    · refine executions_of_overruns hlib hans hstream hs hoverruns ?_
      rw [← hall.sameRecord]
      exact hall.executed
  · rintro ⟨hkeeps, hvecKeeps⟩
    obtain ⟨hout, hstop⟩ := serves_of_kept hlib hans hstream hkeeps
    obtain ⟨hvec, hvecStop⟩ := serves_of_kept hlib hans hstream
      fun s hs => ⟨fun hloses => Bool.false_ne_true hloses.2.2.1, hvecKeeps s hs⟩
    obtain ⟨hexec, hresp⟩ := served_record hans
    exact {
      executed := by rw [hout, hexec]; rfl
      answered := by rw [hout, hresp]; exact Nat.zero_add _
      sameRecord := by rw [hout, hvec]
      sameEnd := Eq.trans hstop hvecStop.symm }

/-- A server without routes, and one request it can parse. -/
def pingHead : List UInt8 := RustStd.asBytes "GET / HTTP/1.1\r\n\r\n"

def pingServer : Server Unit Unit where
  matchit := { accepts := fun _ _ => true, find := fun _ _ => none }
  router := .new
  errorHandler := none
  afterPlugs := []
  lib := oneRequestLib pingHead
    { method := some "GET", path := some "/", version := some 1, headers := [] } .get
  rendering := { canonicalReason := fun _ => none, base64Sha1 := fun _ => "" }
  bodyLimit := 1024
  peerAddr := "10.0.0.1:4000"
  isTls := false
  websockets := false
  sse := fun _ => none
  profile := .release

def quiet : Outside Unit :=
  { waits := fun _ _ => (), accepts := fun _ => true, date := fun _ => [] }

def firstLeased : Buffers := { leases := fun cycle => cycle == 0, excess := fun _ => 0 }

def ping : KeepAliveRequest pingServer where
  bytes := pingHead
  parsed := {
    conn := { Conn.new .get { path := "/", query := none } with remoteAddr := some "10.0.0.1:4000" }
    keepAlive := true
    bytesConsumed := 18
    wsKey := none }
  parses := rfl
  whole := rfl
  keepAlive := rfl
  fits := by decide

/-- One request and the half of a second in the first read. -/
def pingsInTwo : Incoming :=
  { segs := [
      { bytes := pingHead ++ pingHead.take 9, spare := 0, nonempty := by decide },
      { bytes := pingHead.drop 9, spare := 0, nonempty := by decide }]
    reset := false }

/-- Two requests in one read. -/
def pingsInOne : Incoming :=
  { segs := [{ bytes := pingHead ++ pingHead, spare := 0, nonempty := by decide }], reset := false }

theorem pingServer_runs (conn : Conn Unit) : ∃ run, pingServer.executeRequest conn = .ok run := by
  rcases conn with ⟨method, _⟩
  cases method <;> exact ⟨_, rfl⟩

theorem ping_answered (out : Log Unit) (requests : List (KeepAliveRequest pingServer)) :
    Answered quiet out requests :=
  answered_of_plain rfl (fun _ => rfl) pingServer_runs (fun _ => rfl) requests out

theorem inTwo_keeps {s : State Unit} (hs : Reached pingServer quiet firstLeased pingsInTwo s) :
    ¬ LosesTail pingServer firstLeased s := by
  have hcycle : s = .init pingsInTwo ∨ 0 < s.cycle := by
    cases hs with
    | init => exact Or.inl rfl
    | step _ hstep => exact Or.inr (by rw [step_cycle hstep]; exact Nat.succ_pos _)
  rintro ⟨-, -, hlease, seg, -, hseg, -⟩
  rcases hcycle with rfl | hpos
  · cases hseg
  · have hzero : s.cycle = 0 := by simpa [firstLeased] using hlease
    omega

theorem leased_reads_serve_all_inTwo :
    ServesAll pingServer quiet firstLeased pingsInTwo [ping, ping] :=
  have hlib : Incremental pingServer.lib := oneRequestLib_incremental (by decide)
  have hans : Answered quiet [] [ping, ping] := ping_answered [] _
  have hfits : pingServer.Fits := by unfold Server.Fits; decide
  (leased_reads_serve_all pingServer quiet firstLeased pingsInTwo [ping, ping] hlib hans (by decide)).mpr
    ⟨fun _ hs => ⟨inTwo_keeps hs, never_overruns hlib hans hfits (by decide) hs⟩,
      fun _ hs => never_overruns hlib hans hfits (by decide) hs⟩

/-- Of two requests in the only, leased, read the second is never executed. -/
theorem second_request_lost :
    ¬ ServesAll pingServer quiet firstLeased pingsInOne [ping, ping] := by
  intro h
  have hone : (executions (pingServer.handleConnection quiet firstLeased pingsInOne).out).length = 1 := by
    decide +kernel
  rw [h.executed] at hone
  cases hone

end Mahalo.Endpoint
