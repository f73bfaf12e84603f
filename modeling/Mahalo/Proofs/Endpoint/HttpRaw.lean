/-
The raw pointer of the response serializer.

Every part of the head is written by a writer that appends: it stores the part's bytes
at the position, in any memory with room for them, and nothing anywhere else.  So the
whole head is appended, and what remains is the bound: the longest status line, a
Content-Length of twenty digits and the longer Connection line have 117 bytes together,
and 128 are reserved for them.
-/
import Mahalo.Endpoint.HttpRaw
import Mahalo.Proofs.Endpoint.HttpSerialize

namespace Mahalo.HttpParse

open RustStd Lines RawVec

variable {A : Type}

/-! ### The reserved capacity -/

theorem writeHeaders_length (headers : HeaderMap) :
    (writeHeaders headers).length = headerBytes headers := by
  have hcolon : (asBytes ": ").length = 2 := by decide
  have hend : (asBytes "\r\n").length = 2 := by decide
  unfold writeHeaders headerBytes
  rw [← Nat.zero_add (List.length _)]
  -- the accumulator is what has been counted
  generalize 0 = n
  induction headers.iter generalizing n with
  | nil => rfl
  | cons h rest ih =>
      rw [List.flatMap_cons, List.foldl_cons, ← ih]
      simp only [List.length_append, hcolon, hend]
      omega

theorem writeDecimal_length {n : Nat} (h : n < 2 ^ 64) : (writeDecimal n).length ≤ 20 := by
  unfold writeDecimal
  rw [List.length_map, Nat.length_toDigits_le_iff (by decide) (by decide)]
  exact Nat.lt_of_lt_of_le h (by decide)

theorem writeStatusLine_length {r : Rendering}
    (hr : ∀ code reason, r.canonicalReason code = some reason → (asBytes reason).length ≤ 40)
    (code : Nat) : (writeStatusLine r code).length ≤ 55 := by
  have hlen : ∀ code ∈ tabled, (statusLine code).length ≤ 55 := by decide +kernel
  by_cases htab : code ∈ tabled
  · have hne := (statusLine_tabled code htab).1
    rw [writeStatusLine, hne]
    exact hlen code htab
  · have hreason : (asBytes ((r.canonicalReason code).getD "Unknown")).length ≤ 40 := by
      cases hfound : r.canonicalReason code with
      | none => exact (by decide : (asBytes "Unknown").length ≤ 40)
      | some reason => exact hr code reason hfound
    have hversion : (asBytes "HTTP/1.1 ").length = 9 := by decide
    have hend : (asBytes "\r\n").length = 2 := by decide
    rw [writeStatusLine, statusLine_of_not_tabled htab]
    simp only [List.isEmpty_nil, if_true, List.length_append, List.length_cons, List.length_nil,
      hversion, hend]
    omega

/--
**The raw pointer stays inside the reservation.**  `http`'s reason phrases have at
most 31 bytes.
-/
theorem rawPart_le_needed {r : Rendering}
    (hr : ∀ code reason, r.canonicalReason code = some reason → (asBytes reason).length ≤ 40)
    (conn : Conn A) (keepAlive : Bool) (hbody : conn.respBody.length < 2 ^ 64) :
    (rawPart r conn keepAlive).length ≤ needed conn := by
  have hstatus := writeStatusLine_length hr conn.status
  have hdigits := writeDecimal_length hbody
  have hname : (asBytes "content-length: ").length = 16 := by decide
  have hend : (asBytes "\r\n").length = 2 := by decide
  have hlength : (if conn.respHeaders.containsKey "content-length" then []
      else asBytes "content-length: " ++ asBytes (toString conn.respBody.length) ++
        asBytes "\r\n").length ≤ 38 := by
    split
    · simp
    · rw [asBytes_toString]
      simp only [List.length_append, hname, hend]
      omega
  have hconnection : (if keepAlive then asBytes "connection: keep-alive\r\n"
      else asBytes "connection: close\r\n").length ≤ 24 := by
    cases keepAlive <;> decide
  unfold rawPart needed
  simp only [List.length_append, writeHeaders_length] at *
  omega

/-- What follows the raw part is appended, and may allocate. -/
theorem serializeResponseInto_rawPart (r : Rendering) (date : Bytes) (conn : Conn A)
    (keepAlive : Bool) :
    serializeResponseInto r date conn keepAlive = rawPart r conn keepAlive ++ (date ++ serverHeader ++
      asBytes "\r\n" ++ (if conn.method ≠ .head then conn.respBody else [])) := by
  simp only [serializeResponseInto, rawPart, List.append_assoc]

/-! ### What the parts of the head append -/

namespace Raw

/-- The Content-Length line that is added to a response without one. -/
def addedLength (conn : Conn A) : List UInt8 :=
  if conn.respHeaders.containsKey "content-length" then []
  else asBytes "content-length: " ++ asBytes (toString conn.respBody.length) ++ asBytes "\r\n"

theorem appends_of_eq {xs ys : List UInt8} {f : Cursor UInt8 → Option (Cursor UInt8)} (h : Appends xs f)
    (heq : xs = ys) : Appends ys f := heq ▸ h

theorem appends_putCrlf : Appends (asBytes "\r\n") putCrlf :=
  appends_of_eq (appends_putEach [0x0d, 0x0a]) (by decide)

theorem appends_putColon : Appends (asBytes ": ") putColon :=
  appends_of_eq (appends_putEach [0x3a, 0x20]) (by decide)

theorem appends_putSpace : Appends [0x20] putSpace := appends_putEach ([0x20] : List UInt8)

theorem appends_putCode (code : Nat) :
    Appends [.ofNat (48 + code / 100), .ofNat (48 + code / 10 % 10), .ofNat (48 + code % 10)]
      (putCode code) :=
  appends_putEach [UInt8.ofNat (48 + code / 100), .ofNat (48 + code / 10 % 10), .ofNat (48 + code % 10)]

theorem appends_putStatusLine (r : Rendering) (code : Nat) :
    Appends (writeStatusLine r code) (putStatusLine r code) := by
  intro c hroom
  unfold putStatusLine
  unfold writeStatusLine at hroom ⊢
  by_cases hempty : (statusLine code).isEmpty = true
  · rw [if_pos hempty] at hroom ⊢
    rw [if_pos hempty]
    have hparts := (appends_append (asBytes "HTTP/1.1 ")).bind ((appends_putCode code).bind
      (appends_putSpace.bind ((appends_append (asBytes ((r.canonicalReason code).getD "Unknown"))).bind
        appends_putCrlf)))
    refine appends_of_eq hparts ?_ c hroom
    simp only [List.append_assoc, List.cons_append, List.nil_append]
  · rw [if_neg hempty] at hroom ⊢
    rw [if_neg hempty]
    exact appends_append _ c hroom

theorem appends_putHeader (h : String × List UInt8) :
    Appends (asBytes h.1 ++ asBytes ": " ++ h.2 ++ asBytes "\r\n") fun c => putHeader c h := by
  refine appends_of_eq ((appends_append _).bind (appends_putColon.bind
    ((appends_append _).bind appends_putCrlf))) ?_
  simp only [List.append_assoc]

theorem appends_putContentLength (conn : Conn A) :
    Appends (addedLength conn) (putContentLength conn) := by
  intro c hroom
  unfold putContentLength
  unfold addedLength at hroom ⊢
  by_cases hkey : conn.respHeaders.containsKey "content-length" = true
  · rw [if_pos hkey] at hroom ⊢
    rw [if_pos hkey]
    exact appends_pure c hroom
  · rw [if_neg hkey] at hroom ⊢
    rw [if_neg hkey]
    have hparts := (appends_append (asBytes "content-length: ")).bind
      ((appends_append (asBytes (toString conn.respBody.length))).bind appends_putCrlf)
    refine appends_of_eq hparts ?_ c hroom
    simp only [List.append_assoc]

theorem appends_putHead (r : Rendering) (conn : Conn A) (keepAlive : Bool) :
    Appends (rawPart r conn keepAlive) (putHead r conn keepAlive) := by
  refine appends_of_eq ((appends_putStatusLine r conn.status).bind
    ((Appends.foldlM appends_putHeader conn.respHeaders.iter).bind
      ((appends_putContentLength conn).bind (appends_append (connectionHdr keepAlive))))) ?_
  unfold rawPart writeHeaders connectionHdr addedLength
  simp only [List.append_assoc]

/-! ### The vectors -/

theorem cleared_contents (a : Allocator UInt8) (buf : Vec UInt8) (needed : Nat) :
    (cleared a buf needed).contents = [] := by
  unfold cleared
  dsimp only
  split
  · rw [Vec.reserve_contents]
    exact List.take_zero
  · exact List.take_zero

theorem cleared_capacity (a : Allocator UInt8) (buf : Vec UInt8) (needed : Nat) :
    needed ≤ (cleared a buf needed).capacity := by
  unfold cleared
  dsimp only
  split
  · have hroom := buf.clear.reserve_capacity a needed
    rwa [show buf.clear.len = 0 from rfl, Nat.zero_add] at hroom
  · omega

/-- `serialize_sse_headers_into` puts the same bytes into whatever vector it is given. -/
theorem serializeSseHeadersInto_contents (a : Allocator UInt8) (r : Rendering) (date : List UInt8)
    (conn : Conn A) (buf : Vec UInt8) :
    (serializeSseHeadersInto a r date conn buf).contents = HttpParse.serializeSseHeadersInto r date conn := by
  have hloop : ∀ (headers : List (String × List UInt8)) (v : Vec UInt8),
      (headers.foldl (fun buf h => (((buf.extend a (asBytes h.1)).extend a (asBytes ": ")).extend a
        h.2).extend a (asBytes "\r\n")) v).contents = v.contents ++
          headers.flatMap fun h => asBytes h.1 ++ asBytes ": " ++ h.2 ++ asBytes "\r\n" := by
    intro headers
    induction headers with
    | nil => intro v; exact (List.append_nil _).symm
    | cons h rest ih =>
        intro v
        rw [List.foldl_cons, ih, List.flatMap_cons]
        simp only [Vec.extend_contents, List.append_assoc]
  unfold serializeSseHeadersInto HttpParse.serializeSseHeadersInto writeStatusLine writeHeaders
  dsimp only
  simp only [Vec.extend_contents, hloop]
  split <;>
    simp only [Vec.extend_contents, cleared_contents, List.nil_append, List.append_assoc, List.cons_append]

/-- What follows the unsafe block is appended, and may allocate. -/
theorem serializeResponseInto_some {a : Allocator UInt8} {r : Rendering} {conn : Conn A}
    {keepAlive : Bool} {buf : Vec UInt8} {c : Cursor UInt8}
    (hc : putHead r conn keepAlive (.start (cleared a buf (needed conn))) = some c)
    (hlen : c.pos ≤ c.mem.length) (date : List UInt8) :
    ∃ buf', serializeResponseInto a r date conn keepAlive buf = some (c, buf') ∧
      buf'.contents = c.mem.take c.pos ++ (date ++ serverHeader ++ asBytes "\r\n" ++
        (if conn.method ≠ .head then conn.respBody else [])) := by
  have hset : Vec.setLen c.mem c.pos = some { mem := c.mem, len := c.pos, bounded := hlen } := dif_pos hlen
  unfold serializeResponseInto
  dsimp only
  rw [hc, Option.bind_eq_bind, Option.bind_some, hset]
  refine ⟨_, rfl, ?_⟩
  split <;> simp only [Vec.extend_contents, List.append_assoc, List.append_nil] <;> rfl

/-! ### Inside the reservation -/

/-- What is to be said of a call that left the cursor `c` and the vector `buf`. -/
structure Inside (r : Rendering) (date : List UInt8) (conn : Conn A) (keepAlive : Bool)
    (c : Cursor UInt8) (buf : Vec UInt8) : Prop where
  /-- every store is below `needed`, which is reserved -/
  stores : ∀ offset ∈ c.written, offset < needed conn
  reserved : needed conn ≤ c.mem.length
  forward : c.positions.Pairwise (· ≤ ·)
  /-- every byte below `set_len` was stored -/
  initialised : ∀ offset < c.pos, offset ∈ c.written
  bytes : buf.contents = HttpParse.serializeResponseInto r date conn keepAlive

/--
**The unchecked stores stay inside the reservation**, initialise what they expose and
write what the plain concatenation is, for any conn and whatever was in the vector.  The
head of a response that closes, without the Content-Length that was added to it, is the
head of a stream.
-/
theorem unchecked_stores_inside (a : Allocator UInt8) {r : Rendering}
    (hr : ∀ code reason, r.canonicalReason code = some reason → (asBytes reason).length ≤ 40)
    (date : List UInt8) (conn : Conn A) (hbody : conn.respBody.length < 2 ^ 64) (buf : Vec UInt8) :
    (∀ keepAlive, ∃ c buf', serializeResponseInto a r date conn keepAlive buf = some (c, buf') ∧
      Inside r date conn keepAlive c buf') ∧
    ∃ front back, HttpParse.serializeResponseInto r date conn false
        = front ++ addedLength conn ++ back ++ (if conn.method ≠ .head then conn.respBody else []) ∧
      ∀ buf, (serializeSseHeadersInto a r date conn buf).contents = front ++ back := by
  constructor
  · intro keepAlive
    have hfits := rawPart_le_needed hr conn keepAlive hbody
    have hcapacity := cleared_capacity a buf (needed conn)
    obtain ⟨c, hc, hpos, htake, hmem, hwritten, hforward⟩ :=
      (appends_putHead r conn keepAlive).start (cleared a buf (needed conn)) (by omega)
    have hlen : c.pos ≤ c.mem.length := by
      rw [hmem]
      omega
    obtain ⟨buf', hbuf', hcontents⟩ := serializeResponseInto_some hc hlen date
    refine ⟨c, buf', hbuf', ?_⟩
    constructor
    case stores =>
      intro offset hoffset
      have := (hwritten offset).mp hoffset
      omega
    case reserved =>
      rw [hmem]
      exact hcapacity
    case forward => exact hforward
    case initialised =>
      intro offset hoffset
      rw [hpos] at hoffset
      exact (hwritten offset).mpr hoffset
    case bytes =>
      rw [hcontents, htake, serializeResponseInto_rawPart]
  · refine ⟨writeStatusLine r conn.status ++ writeHeaders conn.respHeaders,
      asBytes "connection: close\r\n" ++ date ++ serverHeader ++ asBytes "\r\n", ?_, fun buf => ?_⟩
    · unfold HttpParse.serializeResponseInto addedLength
      simp only [List.append_assoc, Bool.false_eq_true, if_false]
    · rw [serializeSseHeadersInto_contents]
      unfold HttpParse.serializeSseHeadersInto
      simp only [List.append_assoc]

/-- A vector with too little memory, an allocator whose memory is full of something, and a 418. -/
def usedVec : Vec UInt8 := { mem := [1, 2, 3], len := 2, bounded := by decide }

def rubbish : Allocator UInt8 where
  mem n := List.replicate n 0xaa
  enough n := by rw [List.length_replicate]

def teapotConn : Conn Unit :=
  { Conn.new .get { path := "/", query := none } with
    status := 418, respHeaders := [("x-tea", [asBytes "green"])], respBody := asBytes "short" }

theorem unchecked_stores_inside_teapot : ∃ c buf',
    serializeResponseInto rubbish teapotRendering nineDate teapotConn true usedVec = some (c, buf') ∧
      Inside teapotRendering nineDate teapotConn true c buf' := by
  refine (unchecked_stores_inside rubbish ?_ nineDate teapotConn (by decide) usedVec).1 true
  intro code reason hreason
  rw [teapotRendering_reason hreason]
  decide

end Raw

end Mahalo.HttpParse
