/-
How a request's body is framed.

`finalize_body_and_keepalive` takes a body of the declared length, except for GET,
HEAD and DELETE, which never have one here.  So a Content-Length frames the
request of every other method, and a body sent with one of those three is left in
the buffer as the beginning of the next request.
-/
import Mahalo.Endpoint.HttpParse
import Mahalo.Lib.Framing
import Mahalo.Lib.Utf8

namespace Mahalo.HttpParse

variable {A : Type}

/-! ### Decimal numbers -/

/-- The number that ASCII digits write. -/
def decimalValue (acc : Nat) (digits : List UInt8) : Nat :=
  digits.foldl (fun acc d => acc * 10 + (d.toNat - 48)) acc

/-- `1*DIGIT`, of value `n` -/
structure IsDecimal (value : List UInt8) (n : Nat) : Prop where
  nonempty : value ≠ []
  digits : ∀ d ∈ value, 0x30 ≤ d ∧ d ≤ 0x39
  number : decimalValue 0 value = n

/-- The character of an ASCII byte. -/
def asciiChar (b : UInt8) : Char := Char.ofNat b.toNat

theorem asBytes_of_toStr {value : List UInt8} {text : String} (h : toStr value = some text) :
    RustStd.asBytes text = value := by
  unfold toStr at h
  split at h
  · exact RustStd.asBytes_of_fromUtf8 h
  · exact absurd h (by simp)

theorem fromUtf8_ascii {bs : List UInt8} (h : ∀ b ∈ bs, b < 0x80) :
    RustStd.fromUtf8 bs = some (String.ofList (bs.map asciiChar)) := RustStd.fromUtf8_ascii h

theorem digit_lt {d : UInt8} (h : 0x30 ≤ d ∧ d ≤ 0x39) : d.toNat ∈ List.range' 48 10 := by
  have h1 : 48 ≤ d.toNat := UInt8.le_iff_toNat_le.mp h.1
  have h2 : d.toNat ≤ 57 := UInt8.le_iff_toNat_le.mp h.2
  rw [List.mem_range'_1]
  omega

theorem digit_char {d : UInt8} (h : 0x30 ≤ d ∧ d ≤ 0x39) :
    (asciiChar d).isDigit = true ∧ (asciiChar d).toNat = d.toNat ∧
      RustStd.isWhitespace (asciiChar d) = false ∧ asciiChar d ≠ '+' := by
  have hall : ∀ n ∈ List.range' 48 10, (Char.ofNat n).isDigit = true ∧ (Char.ofNat n).toNat = n ∧
      RustStd.isWhitespace (Char.ofNat n) = false ∧ Char.ofNat n ≠ '+' := by decide
  exact hall d.toNat (digit_lt h)

theorem parseDigits_ascii (ds : List UInt8) (h : ∀ d ∈ ds, 0x30 ≤ d ∧ d ≤ 0x39) :
    ∀ acc, RustStd.parseDigits acc (ds.map asciiChar) = some (decimalValue acc ds) := by
  induction ds with
  | nil => intro acc; rfl
  | cons d rest ih =>
      intro acc
      obtain ⟨hdigit, hnat, -, -⟩ := digit_char (h d (List.mem_cons_self ..))
      rw [List.map_cons, RustStd.parseDigits, if_pos hdigit, hnat]
      exact ih (fun d hd => h d (List.mem_cons_of_mem _ hd)) _

theorem dropWhile_digits (ds : List Char) (h : ∀ c ∈ ds, RustStd.isWhitespace c = false) :
    ds.dropWhile RustStd.isWhitespace = ds := by
  cases ds with
  | nil => rfl
  | cons c rest => exact List.dropWhile_cons_of_neg (by simp [h c (List.mem_cons_self ..)])

theorem trim_digits {ds : List Char} (h : ∀ c ∈ ds, RustStd.isWhitespace c = false) :
    RustStd.trim ds = ds := by
  unfold RustStd.trim
  rw [dropWhile_digits ds h, dropWhile_digits _ fun c hc => h c (List.mem_reverse.mp hc),
    List.reverse_reverse]

theorem parseUsize_digits {c : Char} {cs : List Char} (h : c ≠ '+') :
    RustStd.parseUsize (c :: cs) = (RustStd.parseDigits 0 (c :: cs)).filter (· < 2 ^ 64) := by
  unfold RustStd.parseUsize
  dsimp only
  split
  · rename_i heq
    exact absurd (List.cons.inj heq).1 h
  · rfl

/-- A decimal number below 2^64 is read as that number. -/
theorem parse_decimal {value : List UInt8} {n : Nat} (hv : IsDecimal value n) (hn : n < 2 ^ 64) :
    ∃ s, RustStd.fromUtf8 value = some s ∧ RustStd.parseUsize (RustStd.trim s.toList) = some n := by
  have hascii : ∀ b ∈ value, b < 0x80 := by
    intro b hb
    have := (hv.digits b hb).2
    rw [UInt8.le_iff_toNat_le] at this
    rw [UInt8.lt_iff_toNat_lt]
    exact Nat.lt_of_le_of_lt this (by decide)
  refine ⟨_, fromUtf8_ascii hascii, ?_⟩
  rw [String.toList_ofList, trim_digits (by
    intro c hc
    obtain ⟨d, hd, rfl⟩ := List.mem_map.mp hc
    exact (digit_char (hv.digits d hd)).2.2.1)]
  obtain ⟨d, rest, rfl⟩ := List.exists_cons_of_ne_nil hv.nonempty
  have hplus := (digit_char (hv.digits d (List.mem_cons_self ..))).2.2.2
  have hdigits := parseDigits_ascii _ hv.digits 0
  rw [hv.number] at hdigits
  rw [List.map_cons] at hdigits ⊢
  rw [parseUsize_digits hplus, hdigits, Option.filter_some, if_pos (by simpa using hn)]

/-! ### The Content-Length of a header block -/

def isContentLength (h : Header) : Bool := RustStd.eqIgnoreAsciiCase h.name "content-length"

/-- What one Content-Length header makes of the length found so far. -/
def lengthAfter (found : Option Nat) (h : Header) : Option Nat :=
  match RustStd.fromUtf8 h.value with
  | some s => RustStd.parseUsize (RustStd.trim s.toList)
  | none => found

theorem scanHeader_length (found : Option Nat × Option String) (h : Header) :
    (scanHeader found h).1 = if isContentLength h then lengthAfter found.1 h else found.1 := by
  unfold scanHeader isContentLength lengthAfter
  cases RustStd.eqIgnoreAsciiCase h.name "content-length" <;>
    cases RustStd.eqIgnoreAsciiCase h.name "connection" <;>
      cases RustStd.fromUtf8 h.value <;> rfl

/-- Only the Content-Length headers decide the length. -/
theorem scan_length (headers : List Header) (found : Option Nat × Option String) :
    (headers.foldl scanHeader found).1 = (headers.filter isContentLength).foldl lengthAfter found.1 := by
  induction headers generalizing found with
  | nil => rfl
  | cons h rest ih =>
      rw [List.foldl_cons, ih, scanHeader_length, List.filter_cons]
      cases isContentLength h with
      | true => rfl
      | false => rfl

theorem scan_decimal {headers : List Header} {h : Header} {n : Nat}
    (hone : headers.filter isContentLength = [h]) (hv : IsDecimal h.value n) (hn : n < 2 ^ 64)
    (found : Option Nat × Option String) : (headers.foldl scanHeader found).1 = some n := by
  obtain ⟨s, hutf8, hparse⟩ := parse_decimal hv hn
  rw [scan_length, hone, List.foldl_cons, List.foldl_nil]
  unfold lengthAfter
  rw [hutf8]
  exact hparse

/-! ### A complete header block -/

/-- A name that ends up in the header map. -/
def nameAccepted (lib : HttpLib) (h : Header) : Bool :=
  ((fastHeaderName h.name).or (lib.headerNameFromBytes h.name)).isSome

theorem appendHeaders_accepted {lib : HttpLib} {headers : List Header}
    (h : ∀ x ∈ headers, nameAccepted lib x = true) :
    ∀ map, ∃ map', appendHeaders lib map headers = .ok map' := by
  induction headers with
  | nil => intro map; exact ⟨map, rfl⟩
  | cons x rest ih =>
      intro map
      obtain ⟨name, hname⟩ := Option.isSome_iff_exists.mp (h x (List.mem_cons_self ..))
      obtain ⟨map', hmap'⟩ := ih (fun y hy => h y (List.mem_cons_of_mem _ hy)) (map.append name x.value)
      refine ⟨map', ?_⟩
      rw [appendHeaders, hname]
      exact hmap'

/-- A buffer begins with a valid header block of `headerLen` bytes. -/
structure CompleteHead (lib : HttpLib) (buf : List UInt8) (headerLen : Nat) (req : Request)
    (method : Method) (uri : Uri) : Prop where
  parsed : lib.parse buf = .complete headerLen req
  method : req.method.bind lib.methodFromBytes = some method
  uri : req.path.bind lib.uriFromStr = some uri
  names : ∀ h ∈ req.headers, nameAccepted lib h = true

variable {lib : HttpLib} {buf : List UInt8} {headerLen : Nat} {req : Request} {method : Method}
  {uri : Uri}

theorem parseRaw_complete (hparse : lib.parse buf = .complete headerLen req)
    (hmethod : req.method.bind lib.methodFromBytes = some method)
    (huri : req.path.bind lib.uriFromStr = some uri) :
    parseRaw lib buf = .ok (some {
      method, uri, headers := req.headers
      contentLength := (req.headers.foldl scanHeader (none, none)).1
      connectionHeader := (req.headers.foldl scanHeader (none, none)).2
      httpVersion := req.version, headerLen }) := by
  unfold parseRaw
  rw [hparse]
  dsimp only
  rw [hmethod]
  dsimp only
  rw [huri]

/-- A method or a target that is not accepted makes the header block an error. -/
theorem parseRaw_rejected (hparse : lib.parse buf = .complete headerLen req)
    (h : req.method.bind lib.methodFromBytes = none ∨ req.path.bind lib.uriFromStr = none) :
    parseRaw lib buf = .error .invalidRequest := by
  unfold parseRaw
  rw [hparse]
  dsimp only
  rcases h with hmethod | huri
  · rw [hmethod]
  · rw [huri]
    cases req.method.bind lib.methodFromBytes <;> rfl

/-- The methods that never have a body here. -/
def Bodyless (m : Method) : Prop := m = .get ∨ m = .head ∨ m = .delete

theorem bodyLen_bodyless {raw : RawParsed} (h : Bodyless raw.method) : raw.bodyLen = 0 := by
  unfold RawParsed.bodyLen
  rcases h with h | h | h <;> rw [h]

theorem bodyLen_length {raw : RawParsed} (h : ¬ Bodyless raw.method) :
    raw.bodyLen = raw.contentLength.getD 0 := by
  unfold RawParsed.bodyLen
  split
  · rename_i hm; exact absurd (Or.inl hm) h
  · rename_i hm; exact absurd (Or.inr (Or.inl hm)) h
  · rename_i hm; exact absurd (Or.inr (Or.inr hm)) h
  · rfl

/-- With the body in the buffer and within the limit, the request is taken whole. -/
theorem finalize_complete {raw : RawParsed} {buf : List UInt8} {bodyLimit : Nat}
    (hlimit : raw.bodyLen ≤ bodyLimit) (hbuf : raw.headerLen + raw.bodyLen ≤ buf.length) :
    finalizeBodyAndKeepalive raw buf bodyLimit
      = .ok (some ((buf.drop raw.headerLen).take raw.bodyLen, raw.keepAlive,
          raw.headerLen + raw.bodyLen)) := by
  unfold finalizeBodyAndKeepalive
  rw [if_neg (by omega)]
  dsimp only
  rw [if_neg (by omega), List.drop_take, Nat.add_sub_cancel_left]

/-- What `try_parse_request` makes of a complete header block, by the length of its body. -/
theorem CompleteHead.tryParse (hc : CompleteHead lib buf headerLen req method uri) (len : Nat)
    (bodyLimit : Nat) (peerAddr : String)
    (hlen : ∀ raw : RawParsed, raw.method = method →
      raw.contentLength = (req.headers.foldl scanHeader (none, none)).1 → raw.bodyLen = len)
    (hlimit : len ≤ bodyLimit) (hbuf : headerLen + len ≤ buf.length) :
    ∃ parsed : ParsedRequest A,
      tryParseRequest lib buf bodyLimit peerAddr = .ok (some parsed) ∧
        parsed.conn.method = method ∧ parsed.conn.body = (buf.drop headerLen).take len ∧
        parsed.bytesConsumed = headerLen + len := by
  obtain ⟨map, hmap⟩ := appendHeaders_accepted hc.names []
  have hmap : buildHeaderMap lib req.headers = .ok map := hmap
  unfold tryParseRequest
  rw [parseRaw_complete hc.parsed hc.method hc.uri]
  dsimp only
  have hbody := hlen
    { method, uri, headers := req.headers
      contentLength := (req.headers.foldl scanHeader (none, none)).1
      connectionHeader := (req.headers.foldl scanHeader (none, none)).2
      httpVersion := req.version, headerLen } rfl rfl
  rw [finalize_complete (by rw [hbody]; exact hlimit) (by rw [hbody]; exact hbuf), hbody]
  dsimp only
  rw [hmap]
  exact ⟨_, rfl, rfl, rfl, rfl⟩

/-! ### More bytes do not change a decision -/

/--
What `httparse` promises of `Request::parse`: a complete header block is in the
buffer, and bytes behind it or behind an error do not change the result.
-/
structure Incremental (lib : HttpLib) : Prop where
  consumes : ∀ {buf n req}, lib.parse buf = .complete n req → 0 < n ∧ n ≤ buf.length
  complete_append : ∀ {buf n req} (ext : List UInt8),
    lib.parse buf = .complete n req → lib.parse (buf ++ ext) = .complete n req
  error_append : ∀ {buf} (ext : List UInt8), lib.parse buf = .error → lib.parse (buf ++ ext) = .error

/-- `try_parse_request` as a frame parser. -/
def requestParser (lib : HttpLib) (bodyLimit : Nat) (peerAddr : String) :
    Framing.Parser UInt8 ParseError (ParsedRequest A) :=
  fun buf => (tryParseRequest lib buf bodyLimit peerAddr).map
    (Option.map fun parsed => (parsed, parsed.bytesConsumed))

theorem parseRaw_some {raw : RawParsed} (h : parseRaw lib buf = .ok (some raw)) :
    ∃ req, lib.parse buf = .complete raw.headerLen req := by
  unfold parseRaw at h
  split at h
  · cases h
  · cases h
  · rename_i n req hparse
    split at h
    · cases h
    · split at h
      · cases h
      · cases h
        exact ⟨req, hparse⟩

/-- Once the header block is complete or wrong, it stays so. -/
theorem parseRaw_append (hlib : Incremental lib) (ext : List UInt8) (h : parseRaw lib buf ≠ .ok none) :
    parseRaw lib (buf ++ ext) = parseRaw lib buf := by
  cases hparse : lib.parse buf with
  | incomplete =>
      unfold parseRaw at h
      rw [hparse] at h
      exact absurd rfl h
  | error =>
      unfold parseRaw
      rw [hparse, hlib.error_append ext hparse]
  | complete n req =>
      unfold parseRaw
      rw [hparse, hlib.complete_append ext hparse]

theorem finalize_some {raw : RawParsed} {bodyLimit total : Nat} {body : List UInt8}
    {keepAlive : Bool}
    (h : finalizeBodyAndKeepalive raw buf bodyLimit = .ok (some (body, keepAlive, total))) :
    total = raw.headerLen + raw.bodyLen ∧ total ≤ buf.length ∧ keepAlive = raw.keepAlive ∧
      body = (buf.take total).drop raw.headerLen := by
  unfold finalizeBodyAndKeepalive at h
  split at h
  · cases h
  · dsimp only at h
    split at h
    · cases h
    · cases h
      exact ⟨rfl, by omega, rfl, rfl⟩

theorem finalize_append {raw : RawParsed} {bodyLimit : Nat} (ext : List UInt8)
    (h : finalizeBodyAndKeepalive raw buf bodyLimit ≠ .ok none) :
    finalizeBodyAndKeepalive raw (buf ++ ext) bodyLimit = finalizeBodyAndKeepalive raw buf bodyLimit := by
  unfold finalizeBodyAndKeepalive at h ⊢
  dsimp only at h ⊢
  by_cases hlimit : raw.bodyLen > bodyLimit
  · rw [if_pos hlimit, if_pos hlimit]
  · rw [if_neg hlimit] at h
    rw [if_neg hlimit, if_neg hlimit]
    by_cases hshort : buf.length < raw.headerLen + raw.bodyLen
    · rw [if_pos hshort] at h
      exact absurd rfl h
    · rw [if_neg hshort, if_neg (by rw [List.length_append]; omega),
        List.take_append_of_le_length (by omega)]

/-- Where a request and what is returned with it come from. -/
theorem tryParse_parts {bodyLimit : Nat} {peerAddr : String} {parsed : ParsedRequest A}
    (h : tryParseRequest lib buf bodyLimit peerAddr = .ok (some parsed)) :
    ∃ raw headerMap, parseRaw lib buf = .ok (some raw) ∧ buildHeaderMap lib raw.headers = .ok headerMap ∧
      parsed.keepAlive = raw.keepAlive ∧ parsed.wsKey = detectWsKey raw.method raw.headers headerMap ∧
      parsed.bytesConsumed = raw.headerLen + raw.bodyLen ∧ parsed.bytesConsumed ≤ buf.length ∧
      parsed.conn.body = (buf.take parsed.bytesConsumed).drop raw.headerLen := by
  unfold tryParseRequest at h
  split at h
  · cases h
  · cases h
  · rename_i raw hraw
    split at h
    · cases h
    · cases h
    · rename_i body keepAlive total hfin
      obtain ⟨htotal, hle, hkeep, hbody⟩ := finalize_some hfin
      split at h
      · cases h
      · rename_i headerMap hmap
        cases h
        exact ⟨raw, headerMap, hraw, hmap, hkeep, rfl, htotal, hle, hbody⟩

theorem tryParse_some (hlib : Incremental lib) {bodyLimit : Nat} {peerAddr : String}
    {parsed : ParsedRequest A} (h : tryParseRequest lib buf bodyLimit peerAddr = .ok (some parsed)) :
    0 < parsed.bytesConsumed ∧ parsed.bytesConsumed ≤ buf.length := by
  obtain ⟨raw, _, hraw, -, -, -, htotal, hle, -⟩ := tryParse_parts h
  obtain ⟨req, hparse⟩ := parseRaw_some hraw
  have hpos := (hlib.consumes hparse).1
  exact ⟨by omega, hle⟩

/-- A request's body is the end of what the request takes off the buffer. -/
theorem tryParse_body {bodyLimit : Nat} {peerAddr : String} {parsed : ParsedRequest A}
    (h : tryParseRequest lib buf bodyLimit peerAddr = .ok (some parsed)) :
    parsed.conn.body <:+ buf.take parsed.bytesConsumed := by
  obtain ⟨raw, _, -, -, -, -, -, -, hbody⟩ := tryParse_parts h
  rw [hbody]
  exact List.drop_suffix _ _

/-- A request that was parsed, or refused, is so with more bytes behind it. -/
theorem tryParse_append (hlib : Incremental lib) {bodyLimit : Nat} {peerAddr : String}
    (ext : List UInt8) (h : tryParseRequest (A := A) lib buf bodyLimit peerAddr ≠ .ok none) :
    tryParseRequest (A := A) lib (buf ++ ext) bodyLimit peerAddr
      = tryParseRequest lib buf bodyLimit peerAddr := by
  have hraw : parseRaw lib buf ≠ .ok none := by
    intro hnone
    unfold tryParseRequest at h
    rw [hnone] at h
    exact h rfl
  unfold tryParseRequest
  rw [parseRaw_append hlib ext hraw]
  cases hr : parseRaw lib buf with
  | error e => rfl
  | ok o =>
      rcases o with _ | raw
      · rfl
      · have hfin : finalizeBodyAndKeepalive raw buf bodyLimit ≠ .ok none := by
          intro hnone
          unfold tryParseRequest at h
          rw [hr] at h
          dsimp only at h
          rw [hnone] at h
          exact h rfl
        dsimp only
        rw [finalize_append ext hfin]

section

variable {bodyLimit : Nat} {peerAddr : String}

theorem requestParser_some {parsed : ParsedRequest A}
    (h : tryParseRequest lib buf bodyLimit peerAddr = .ok (some parsed)) :
    requestParser lib bodyLimit peerAddr buf = .ok (some (parsed, parsed.bytesConsumed)) := by
  unfold requestParser
  rw [h]
  rfl

theorem requestParser_none (h : tryParseRequest (A := A) lib buf bodyLimit peerAddr = .ok none) :
    requestParser (A := A) lib bodyLimit peerAddr buf = .ok none := by
  unfold requestParser
  rw [h]
  rfl

theorem requestParser_error {e : ParseError}
    (h : tryParseRequest (A := A) lib buf bodyLimit peerAddr = .error e) :
    requestParser (A := A) lib bodyLimit peerAddr buf = .error e := by
  unfold requestParser
  rw [h]
  rfl

/-- **Request parsing is stable.**  It makes progress, and more bytes do not change its mind. -/
theorem requestParser_stable (hlib : Incremental lib) :
    Framing.Stable (requestParser (A := A) lib bodyLimit peerAddr) where
  consumes := by
    intro buf parsed n h
    cases hp : tryParseRequest (A := A) lib buf bodyLimit peerAddr with
    | error e => rw [requestParser_error hp] at h; cases h
    | ok o =>
        rcases o with _ | p
        · rw [requestParser_none hp] at h; cases h
        · rw [requestParser_some hp] at h
          cases h
          exact tryParse_some hlib hp
  some_append := by
    intro buf parsed n ext h
    cases hp : tryParseRequest (A := A) lib buf bodyLimit peerAddr with
    | error e => rw [requestParser_error hp] at h; cases h
    | ok o =>
        rcases o with _ | p
        · rw [requestParser_none hp] at h; cases h
        · rw [← h]
          unfold requestParser
          rw [tryParse_append hlib ext (by rw [hp]; nofun)]
  error_append := by
    intro buf e ext h
    cases hp : tryParseRequest (A := A) lib buf bodyLimit peerAddr with
    | error e' =>
        rw [← h]
        unfold requestParser
        rw [tryParse_append hlib ext (by rw [hp]; nofun)]
    | ok o =>
        rcases o with _ | p
        · rw [requestParser_none hp] at h; cases h
        · rw [requestParser_some hp] at h; cases h

end

/-! ### The framing of a body -/

/--
**Content-Length frames a body, except of GET, HEAD and DELETE.**  A complete
header block with one well-formed Content-Length within the limit, and that many
bytes behind it: a request of any other method has exactly these bytes as its
body and is consumed with them.  A GET, HEAD or DELETE has no body, and only its
header block is consumed.
-/
theorem body_framed_by_method (lib : HttpLib) (buf : List UInt8) (headerLen : Nat) (req : Request)
    (method : Method) (uri : Uri) (length : Header) (n : Nat) (bodyLimit : UInt64)
    (peerAddr : String) (hc : CompleteHead lib buf headerLen req method uri)
    (hone : req.headers.filter isContentLength = [length]) (hn : IsDecimal length.value n)
    (hlimit : n ≤ bodyLimit.toNat) (hbuf : headerLen + n ≤ buf.length) :
    ∃ parsed : ParsedRequest A,
      tryParseRequest lib buf bodyLimit.toNat peerAddr = .ok (some parsed) ∧
        parsed.conn.method = method ∧
        (¬ Bodyless method →
          parsed.conn.body = (buf.drop headerLen).take n ∧ parsed.bytesConsumed = headerLen + n) ∧
        (Bodyless method → parsed.conn.body = [] ∧ parsed.bytesConsumed = headerLen) := by
  have hfound := scan_decimal hone hn (Nat.lt_of_le_of_lt hlimit bodyLimit.toNat_lt) (none, none)
  by_cases hm : Bodyless method
  · obtain ⟨parsed, hparsed, hmethod, hbody, hconsumed⟩ := hc.tryParse 0 bodyLimit.toNat
      peerAddr (fun raw hrm _ => bodyLen_bodyless (hrm ▸ hm)) (Nat.zero_le _) (by omega)
    exact ⟨parsed, hparsed, hmethod, fun hnot => absurd hm hnot,
      fun _ => ⟨by rw [hbody, List.take_zero], hconsumed⟩⟩
  · obtain ⟨parsed, hparsed, hmethod, hbody, hconsumed⟩ := hc.tryParse n bodyLimit.toNat
      peerAddr (fun raw hrm hrl => by
        rw [bodyLen_length (by rw [hrm]; exact hm), hrl, hfound, Option.getD_some]) hlimit hbuf
    exact ⟨parsed, hparsed, hmethod, fun _ => ⟨hbody, hconsumed⟩, fun hyes => absurd hyes hm⟩

/-- A parser that knows one request line and its one header. -/
def oneRequestLib (head : List UInt8) (req : Request) (method : Method) : HttpLib where
  parse buf :=
    if head.isPrefixOf buf then .complete head.length req
    else if buf.isPrefixOf head then .incomplete
    else .error
  methodFromBytes _ := some method
  uriFromStr path := some { path, query := none }
  headerNameFromBytes name := some name

theorem oneRequestLib_incremental {head : List UInt8} {req : Request} {method : Method}
    (hne : head ≠ []) : Incremental (oneRequestLib head req method) where
  consumes := by
    intro buf n r h
    unfold oneRequestLib at h
    dsimp only at h
    split at h
    · rename_i hpre
      cases h
      exact ⟨List.length_pos_iff.mpr hne, (List.isPrefixOf_iff_prefix.mp hpre).length_le⟩
    · split at h <;> cases h
  complete_append := by
    intro buf n r ext h
    unfold oneRequestLib at h ⊢
    dsimp only at h ⊢
    split at h
    · rename_i hpre
      rw [if_pos (List.isPrefixOf_iff_prefix.mpr
        ((List.isPrefixOf_iff_prefix.mp hpre).trans (List.prefix_append buf ext)))]
      exact h
    · split at h <;> cases h
  error_append := by
    intro buf ext h
    unfold oneRequestLib at h ⊢
    dsimp only at h ⊢
    split at h
    · cases h
    · rename_i hhead
      split at h
      · cases h
      · rename_i hbuf
        rw [if_neg, if_neg]
        · intro hpre
          exact hbuf (List.isPrefixOf_iff_prefix.mpr
            ((List.prefix_append buf ext).trans (List.isPrefixOf_iff_prefix.mp hpre)))
        · intro hpre
          rcases List.prefix_or_prefix_of_prefix (List.isPrefixOf_iff_prefix.mp hpre)
            (List.prefix_append buf ext) with hle | hle
          · exact hhead (List.isPrefixOf_iff_prefix.mpr hle)
          · exact hbuf (List.isPrefixOf_iff_prefix.mpr hle)

/-- A request with five bytes behind its header block, by its method. -/
def greeting (name : String) : Request :=
  { method := some name, path := some "/", version := some 1
    headers := [{ name := "Content-Length", value := RustStd.asBytes "5" }] }

def greetingHead (name : String) : List UInt8 :=
  RustStd.asBytes (name ++ " / HTTP/1.1\r\nContent-Length: 5\r\n\r\n")

def greetingBuf (name : String) : List UInt8 := greetingHead name ++ RustStd.asBytes "hello"

theorem five_isDecimal : IsDecimal (RustStd.asBytes "5") 5 where
  nonempty := by decide
  digits := List.forall_mem_singleton.mpr ⟨by decide, by decide⟩
  number := rfl

theorem body_framed_by_method_post :
    ∃ parsed : ParsedRequest Unit,
      tryParseRequest (oneRequestLib (greetingHead "POST") (greeting "POST") .post)
          (greetingBuf "POST") (1024 : UInt64).toNat "10.0.0.1:4000"
        = .ok (some parsed) ∧
        parsed.conn.method = .post ∧
        (¬ Bodyless .post →
          parsed.conn.body = ((greetingBuf "POST").drop 38).take 5 ∧
            parsed.bytesConsumed = 38 + 5) ∧
        (Bodyless .post → parsed.conn.body = [] ∧ parsed.bytesConsumed = 38) :=
  body_framed_by_method _ _ 38 (greeting "POST") .post { path := "/", query := none }
    { name := "Content-Length", value := RustStd.asBytes "5" } 5 1024 _
    { parsed := by decide
      method := rfl
      uri := rfl
      names := by decide }
    (by decide) five_isDecimal (by decide)
    (by decide)

/-- A GET with a Content-Length of 5 leaves its five bytes in front of the next request. -/
theorem get_body_left_behind :
    CompleteHead (oneRequestLib (greetingHead "GET") (greeting "GET") .get) (greetingBuf "GET") 37
        (greeting "GET") .get { path := "/", query := none } ∧
      (greeting "GET").headers.filter isContentLength
        = [{ name := "Content-Length", value := RustStd.asBytes "5" }] ∧
      IsDecimal (RustStd.asBytes "5") 5 ∧ 37 + 5 ≤ (greetingBuf "GET").length ∧
      ∃ parsed : ParsedRequest Unit,
        tryParseRequest (oneRequestLib (greetingHead "GET") (greeting "GET") .get) (greetingBuf "GET")
            1024 "10.0.0.1:4000" = .ok (some parsed) ∧
          parsed.conn.body = [] ∧ parsed.bytesConsumed = 37 ∧
          (greetingBuf "GET").drop parsed.bytesConsumed = RustStd.asBytes "hello" :=
  ⟨{ parsed := by decide, method := rfl, uri := rfl, names := by decide }, by decide,
    five_isDecimal, by decide,
    _, rfl, rfl, rfl, by decide⟩

end Mahalo.HttpParse
