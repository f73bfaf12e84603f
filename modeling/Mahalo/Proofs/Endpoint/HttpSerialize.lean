/-
A stream of responses decodes uniquely.

The client here knows which methods it asked with, and reads as one does: a status
line, fields up to the blank line, and a body as long as Content-Length says
unless the answer has none.  It refuses a Transfer-Encoding.  Whatever it is sent
by `serialize_response_into`, one response behind the other, it takes apart into
what was put in, as long as every status permits a body and no handler sets the
two framing headers itself.
-/
import Mahalo.Endpoint.HttpSerialize
import Mahalo.Lib.Lines
import Mahalo.Proofs.Endpoint.HttpParse

namespace Mahalo.HttpParse

open RustStd Lines

variable {A : Type}

/-! ### The client -/

/-- What a client makes of a response. -/
structure Response where
  status : Nat
  headers : List (String × List UInt8)
  body : List UInt8
  keepAlive : Bool
  deriving DecidableEq, Repr

/-- The code of a status line. -/
def readStatus (line : Bytes) : Option Nat :=
  if (asBytes "HTTP/1.1 ").isPrefixOf line then readDecimal ((line.drop 9).take 3) else none

/-- An answer to HEAD has no body, and neither has a 1xx, a 204 or a 304. -/
def bodyless (method : Method) (status : Nat) : Bool :=
  method = .head || status < 200 || status = 204 || status = 304

def readLength (method : Method) (status : Nat) (fields : List Field) : Option Nat :=
  if bodyless method status then some 0
  else (fields.lookup (asBytes "content-length")).bind readDecimal

/-- The last Connection field decides; the server writes its own behind those of the handler. -/
def readConnection (fields : List Field) : Option Bool :=
  (fields.reverse.lookup (asBytes "connection")).bind fun value =>
    if value = asBytes "keep-alive" then some true
    else if value = asBytes "close" then some false
    else none

/-- The handler's fields: all but the four that the server ends its block with. -/
def readHeaders (fields : List Field) : Option (List (String × List UInt8)) :=
  (fields.take (fields.length - 4)).mapM fun (name, value) => (fromUtf8 name).map fun s => (s, value)

def readResponse (method : Method) (bs : Bytes) : Option (Response × Bytes) := do
  let (line, rest) ← takeLine bs
  let status ← readStatus line
  let (fields, rest) ← takeFields rest
  let length ← readLength method status fields
  let keepAlive ← readConnection fields
  let headers ← readHeaders fields
  if (fields.lookup (asBytes "transfer-encoding")).isSome ∨ rest.length < length then none
  else some ({ status, headers, body := rest.take length, keepAlive }, rest.drop length)

/-- The responses to a list of requests, which take the stream to its end. -/
def readResponses : List Method → Bytes → Option (List Response) := readEach readResponse

/-! ### What is sent -/

/-- `tchar`: a visible ASCII character that is no delimiter. -/
def isTokenChar (c : Char) : Bool :=
  33 ≤ c.toNat && c.toNat < 127 &&
    !([34, 40, 41, 44, 47, 58, 59, 60, 61, 62, 63, 64, 91, 92, 93, 123, 125].contains c.toNat)

/-- The reason phrases of `http` are one line. -/
def Rendering.PlainReasons (r : Rendering) : Prop :=
  ∀ code reason, r.canonicalReason code = some reason → Unbroken (asBytes reason)

/-- One call of `serialize_response_into`, at a moment with this date line. -/
structure Sent (A : Type) where
  conn : Conn A
  keepAlive : Bool
  date : Bytes

def Sent.bytes (r : Rendering) (x : Sent A) : Bytes :=
  serializeResponseInto r x.date x.conn x.keepAlive

def Sent.meaning (x : Sent A) : Response where
  status := x.conn.status
  headers := x.conn.respHeaders.iter
  body := if x.conn.method = .head then [] else x.conn.respBody
  keepAlive := x.keepAlive

/-- A status that permits a body, headers as `http` builds them, and a date line. -/
structure Sent.Framed (x : Sent A) : Prop where
  status : 200 ≤ x.conn.status ∧ x.conn.status ≤ 999 ∧ x.conn.status ≠ 204 ∧ x.conn.status ≠ 304
  noLength : x.conn.respHeaders.containsKey "content-length" = false
  noTransfer : x.conn.respHeaders.containsKey "transfer-encoding" = false
  names : ∀ p ∈ x.conn.respHeaders.iter, p.1.toList.all isTokenChar
  values : ∀ p ∈ x.conn.respHeaders.iter, Unbroken p.2
  date : ∃ value, Unbroken value ∧ x.date = writeField (asBytes "date", value)

/-! ### ASCII text -/

theorem ofNat_ascii {n : Nat} (h : n < 128) : (UInt8.ofNat n).toNat = n := by
  rw [UInt8.toNat_ofNat']
  exact Nat.mod_eq_of_lt (by omega)

theorem token_ascii {name : String} (h : name.toList.all isTokenChar) :
    ∀ c ∈ name.toList, c.toNat < 128 := by
  intro c hc
  have := List.all_eq_true.mp h c hc
  simp only [isTokenChar, Bool.and_eq_true, decide_eq_true_eq] at this
  omega

/-- A token holds none of the bytes that end a name. -/
theorem token_writable {name : String} (h : name.toList.all isTokenChar) {value : Bytes}
    (hvalue : Unbroken value) : Field.Writable (asBytes name, value) := by
  have hall : ∀ b ∈ asBytes name, b ≠ cr ∧ b ≠ lf ∧ b ≠ colon := by
    intro b hb
    rw [asBytes_ascii (token_ascii h)] at hb
    obtain ⟨c, hc, rfl⟩ := List.mem_map.mp hb
    have hnat := ofNat_ascii (token_ascii h c hc)
    have htoken := List.all_eq_true.mp h c hc
    simp only [isTokenChar, Bool.and_eq_true, decide_eq_true_eq] at htoken
    refine ⟨?_, ?_, ?_⟩ <;> intro heq <;> rw [heq] at hnat
    · have : c.toNat = 13 := hnat.symm
      omega
    · have : c.toNat = 10 := hnat.symm
      omega
    · have : c.toNat = 58 := hnat.symm
      rw [this] at htoken
      exact absurd htoken.2 (by decide)
  exact ⟨fun b hb => ⟨(hall b hb).1, (hall b hb).2.1⟩, fun hb => (hall _ hb).2.2 rfl, hvalue⟩

theorem asBytes_toString (n : Nat) : asBytes (toString n) = writeDecimal n := by
  have htext : (toString n).toList = Nat.toDigits 10 n := by
    rw [Nat.toString_eq_ofList_toDigits, String.toList_ofList]
  rw [asBytes_ascii, htext]
  · rfl
  · intro c hc
    rw [htext] at hc
    have hdigit : c.isDigit = true := Nat.isDigit_of_mem_toDigits (by decide) (by decide) hc
    have : c.toNat ≤ 57 := by
      have : 48 ≤ c.toNat ∧ c.toNat ≤ 57 := by
        simpa [Char.isDigit, UInt32.le_iff_toNat_le] using hdigit
      exact this.2
    omega

/-! ### The status line -/

/-- The codes of the table. -/
def tabled : List Nat := [200, 201, 204, 301, 302, 304, 400, 401, 403, 404, 405, 413, 500, 503]

theorem statusLine_of_not_tabled {code : Nat} (h : code ∉ tabled) : statusLine code = [] := by
  unfold statusLine
  split <;> first | rfl | exact absurd (by decide) h

/-- A line that reads as this status. -/
structure IsStatusLine (code : Nat) (line : Bytes) : Prop where
  unbroken : Unbroken line
  reads : readStatus line = some code

theorem statusLine_tabled : ∀ code ∈ tabled, (statusLine code).isEmpty = false ∧
    statusLine code = (statusLine code).dropLast.dropLast ++ crlf ∧
    Unbroken (statusLine code).dropLast.dropLast ∧
    readStatus (statusLine code).dropLast.dropLast = some code := by
  decide +kernel

theorem digit_ofNat {d : Nat} (h : d < 10) :
    isDigit (.ofNat (48 + d)) = true ∧ (UInt8.ofNat (48 + d)).toNat = 48 + d := by
  have hnat : (UInt8.ofNat (48 + d)).toNat = 48 + d := ofNat_ascii (by omega)
  refine ⟨?_, hnat⟩
  simp only [isDigit, Bool.and_eq_true, decide_eq_true_eq, UInt8.le_iff_toNat_le, hnat]
  exact ⟨Nat.le_add_right 48 d, show 48 + d ≤ 57 by omega⟩

/-- Three digits put together by hand read as their number. -/
theorem readDecimal_digits {a b c : Nat} (ha : a < 10) (hb : b < 10) (hc : c < 10) :
    readDecimal [.ofNat (48 + a), .ofNat (48 + b), .ofNat (48 + c)] =
      some (100 * a + 10 * b + c) := by
  have hall : ([.ofNat (48 + a), .ofNat (48 + b), .ofNat (48 + c)] : Bytes).all isDigit = true := by
    simp only [List.all_cons, List.all_nil, (digit_ofNat ha).1, (digit_ofNat hb).1,
      (digit_ofNat hc).1, Bool.and_self]
  unfold readDecimal
  rw [hall]
  simp only [List.isEmpty_cons, Bool.not_true, Bool.or_self, Bool.false_eq_true, if_false,
    digitsValue, List.foldl_cons, List.foldl_nil, (digit_ofNat ha).2, (digit_ofNat hb).2,
    (digit_ofNat hc).2]
  congr 1
  omega

theorem digit_unbroken {d : Nat} (h : d < 10) :
    (UInt8.ofNat (48 + d)) ≠ cr ∧ (UInt8.ofNat (48 + d)) ≠ lf := by
  have hnat := (digit_ofNat h).2
  constructor <;> intro heq <;> rw [heq] at hnat
  · have : (13 : Nat) = 48 + d := hnat
    omega
  · have : (10 : Nat) = 48 + d := hnat
    omega

/-- **The status line is one line, and reads as its status.** -/
theorem writeStatusLine_line {r : Rendering} (hr : r.PlainReasons) {code : Nat}
    (hlow : 100 ≤ code) (hhigh : code ≤ 999) :
    ∃ line, writeStatusLine r code = line ++ crlf ∧ IsStatusLine code line := by
  by_cases htab : code ∈ tabled
  · obtain ⟨hne, hshape, hun, hread⟩ := statusLine_tabled code htab
    refine ⟨_, ?_, hun, hread⟩
    rw [writeStatusLine, hne]
    exact hshape
  · rw [writeStatusLine, statusLine_of_not_tabled htab]
    have ha : code / 100 < 10 := by omega
    have hb : code / 10 % 10 < 10 := by omega
    have hc : code % 10 < 10 := by omega
    have hreason : Unbroken (asBytes ((r.canonicalReason code).getD "Unknown")) := by
      cases hfound : r.canonicalReason code with
      | none => exact (by decide : Unbroken (asBytes "Unknown"))
      | some reason => exact hr code reason hfound
    refine ⟨asBytes "HTTP/1.1 " ++
      [.ofNat (48 + code / 100), .ofNat (48 + code / 10 % 10), .ofNat (48 + code % 10), space] ++
      asBytes ((r.canonicalReason code).getD "Unknown"), rfl, ?_, ?_⟩
    · refine unbroken_append.mpr ⟨unbroken_append.mpr ⟨by decide, ?_⟩, hreason⟩
      refine unbroken_cons.mpr ⟨digit_unbroken ha, unbroken_cons.mpr ⟨digit_unbroken hb, ?_⟩⟩
      exact unbroken_cons.mpr ⟨digit_unbroken hc, by decide⟩
    · have hcode : 100 * (code / 100) + 10 * (code / 10 % 10) + code % 10 = code := by omega
      rw [readStatus, List.append_assoc, if_pos (by simp)]
      refine (readDecimal_digits ha hb hc).trans ?_
      rw [hcode]

/-! ### The header block -/

def toField (p : String × List UInt8) : Field := (asBytes p.1, p.2)

/-- A status, headers as `http` builds them, and a date line. -/
structure PlainHead (conn : Conn A) (date : Bytes) : Prop where
  status : 100 ≤ conn.status ∧ conn.status ≤ 999
  names : ∀ p ∈ conn.respHeaders.iter, p.1.toList.all isTokenChar
  values : ∀ p ∈ conn.respHeaders.iter, Unbroken p.2
  date : ∃ value, Unbroken value ∧ date = writeField (asBytes "date", value)

/-- What the server puts at the end of every header block. -/
def endFields (length : Option Nat) (keepAlive : Bool) (dateValue : Bytes) : List Field :=
  (length.map fun n => (asBytes "content-length", writeDecimal n)).toList ++
    [(asBytes "connection", asBytes (if keepAlive then "keep-alive" else "close")),
      (asBytes "date", dateValue), (asBytes "server", asBytes "mahalo")]

theorem endFields_writable (length : Option Nat) (keepAlive : Bool) {dateValue : Bytes}
    (hdate : Unbroken dateValue) : ∀ f ∈ endFields length keepAlive dateValue, f.Writable := by
  intro f hf
  rcases List.mem_append.mp hf with hlength | hend
  · cases length with
    | none => cases hlength
    | some n =>
        cases List.mem_singleton.mp hlength
        exact token_writable (by decide) (writeDecimal_unbroken _)
  · simp only [List.mem_cons, List.not_mem_nil, or_false] at hend
    rcases hend with rfl | rfl | rfl
    · refine token_writable (by decide) ?_
      cases keepAlive <;> decide
    · exact token_writable (by decide) hdate
    · exact token_writable (by decide) (by decide)

theorem PlainHead.writable {conn : Conn A} {date : Bytes} (h : PlainHead conn date)
    (length : Option Nat) (keepAlive : Bool) {dateValue : Bytes} (hdate : Unbroken dateValue) :
    ∀ f ∈ conn.respHeaders.iter.map toField ++ endFields length keepAlive dateValue, f.Writable := by
  intro f hf
  rcases List.mem_append.mp hf with hown | hserver
  · obtain ⟨p, hp, rfl⟩ := List.mem_map.mp hown
    exact token_writable (h.names p hp) (h.values p hp)
  · exact endFields_writable length keepAlive hdate f hserver

theorem writeHeaders_eq (headers : HeaderMap) :
    writeHeaders headers = (headers.iter.map toField).flatMap writeField := by
  unfold writeHeaders
  rw [List.flatMap_map]
  rfl

theorem connection_field (keepAlive : Bool) :
    (if keepAlive then asBytes "connection: keep-alive\r\n" else asBytes "connection: close\r\n")
      = writeField (asBytes "connection", asBytes (if keepAlive then "keep-alive" else "close")) := by
  cases keepAlive <;> decide

theorem server_field : serverHeader = writeField (asBytes "server", asBytes "mahalo") := by decide

/-- The length that the server writes itself. -/
def ownLength (conn : Conn A) : Option Nat :=
  if conn.respHeaders.containsKey "content-length" then none else some conn.respBody.length

/-- The whole of a response: a status line, the fields, the blank line, the body. -/
theorem PlainHead.response_eq {r : Rendering} (hr : r.PlainReasons) {conn : Conn A} {date : Bytes}
    (h : PlainHead conn date) (keepAlive : Bool) :
    ∃ line dateValue, IsStatusLine conn.status line ∧ Unbroken dateValue ∧
      serializeResponseInto r date conn keepAlive = line ++ (crlf ++
        ((conn.respHeaders.iter.map toField ++ endFields (ownLength conn) keepAlive dateValue).flatMap
          writeField ++ (crlf ++ (if conn.method ≠ .head then conn.respBody else [])))) := by
  obtain ⟨line, hline, hstatus⟩ := writeStatusLine_line hr h.status.1 h.status.2
  obtain ⟨dateValue, hdate, hdateEq⟩ := h.date
  refine ⟨line, dateValue, hstatus, hdate, ?_⟩
  have hlength : (if conn.respHeaders.containsKey "content-length" then []
      else asBytes "content-length: " ++ asBytes (toString conn.respBody.length) ++ asBytes "\r\n")
        = ((ownLength conn).map fun n => (asBytes "content-length", writeDecimal n)).toList.flatMap
          writeField := by
    unfold ownLength
    by_cases hkey : conn.respHeaders.containsKey "content-length"
    · rw [if_pos hkey, if_pos hkey]
      rfl
    · rw [if_neg hkey, if_neg hkey, asBytes_toString, Option.map_some, Option.toList_some,
        List.flatMap_singleton]
      rfl
  unfold serializeResponseInto
  rw [connection_field, hlength, server_field, hline, hdateEq, writeHeaders_eq]
  simp only [endFields, List.flatMap_append, List.flatMap_cons, List.flatMap_nil, List.append_assoc,
    List.append_nil]
  rfl

/-- The head of a stream: a status line, the fields, the blank line. -/
theorem PlainHead.sse_eq {r : Rendering} (hr : r.PlainReasons) {conn : Conn A} {date : Bytes}
    (h : PlainHead conn date) :
    ∃ line dateValue, IsStatusLine conn.status line ∧ Unbroken dateValue ∧
      serializeSseHeadersInto r date conn = line ++ (crlf ++
        ((conn.respHeaders.iter.map toField ++ endFields none false dateValue).flatMap writeField ++
          crlf)) := by
  obtain ⟨line, hline, hstatus⟩ := writeStatusLine_line hr h.status.1 h.status.2
  obtain ⟨dateValue, hdate, hdateEq⟩ := h.date
  refine ⟨line, dateValue, hstatus, hdate, ?_⟩
  have hconnection : asBytes "connection: close\r\n"
      = writeField (asBytes "connection", asBytes "close") := connection_field false
  unfold serializeSseHeadersInto
  rw [hconnection, server_field, hline, hdateEq, writeHeaders_eq]
  simp only [endFields, List.flatMap_append, List.flatMap_cons, List.flatMap_nil, List.append_assoc,
    List.append_nil, Option.map_none, Option.toList_none, List.nil_append]
  rfl

theorem Sent.Framed.plain {x : Sent A} (hx : x.Framed) : PlainHead x.conn x.date where
  status := ⟨Nat.le_trans (by decide) hx.status.1, hx.status.2.1⟩
  names := hx.names
  values := hx.values
  date := hx.date

/-- What the server puts at the end of the header block of a response that is `Framed`. -/
def Sent.ownFields (x : Sent A) (dateValue : Bytes) : List Field :=
  [(asBytes "content-length", writeDecimal x.conn.respBody.length),
    (asBytes "connection", asBytes (if x.keepAlive then "keep-alive" else "close")),
    (asBytes "date", dateValue), (asBytes "server", asBytes "mahalo")]

def Sent.fields (x : Sent A) (dateValue : Bytes) : List Field :=
  x.conn.respHeaders.iter.map toField ++ x.ownFields dateValue

theorem Sent.Framed.writable {x : Sent A} (hx : x.Framed) {dateValue : Bytes}
    (hdate : Unbroken dateValue) : ∀ f ∈ x.fields dateValue, f.Writable :=
  hx.plain.writable (some x.conn.respBody.length) x.keepAlive hdate

theorem Sent.bytes_eq {r : Rendering} (hr : r.PlainReasons) {x : Sent A} (hx : x.Framed) :
    ∃ line dateValue, IsStatusLine x.conn.status line ∧ Unbroken dateValue ∧
      x.bytes r = line ++ (crlf ++ ((x.fields dateValue).flatMap writeField ++
        (crlf ++ x.meaning.body))) := by
  obtain ⟨line, dateValue, hstatus, hdate, hbytes⟩ := hx.plain.response_eq hr x.keepAlive
  have hbody : (if x.conn.method ≠ .head then x.conn.respBody else []) = x.meaning.body := by
    unfold Sent.meaning
    by_cases hhead : x.conn.method = .head <;> simp [hhead]
  have hlength : ownLength x.conn = some x.conn.respBody.length := by
    unfold ownLength
    rw [hx.noLength, if_neg (by simp)]
  rw [hlength, hbody] at hbytes
  exact ⟨line, dateValue, hstatus, hdate, hbytes⟩

/-! ### Reading it back -/

theorem lookup_append_ne {K V : Type} [BEq K] [LawfulBEq K] {k : K} (front back : List (K × V))
    (h : ∀ p ∈ front, p.1 ≠ k) : (front ++ back).lookup k = back.lookup k := by
  induction front with
  | nil => rfl
  | cons p front ih =>
      obtain ⟨k', v⟩ := p
      have hne : (k == k') = false := by
        rw [beq_eq_false_iff_ne]
        exact fun heq => h (k', v) (by simp) heq.symm
      rw [List.cons_append, List.lookup_cons, hne]
      exact ih fun p hp => h p (by simp [hp])

/-- A header that is not in the map is none of the handler's fields. -/
theorem handler_ne {headers : HeaderMap} {name : String} (hnot : headers.containsKey name = false) :
    ∀ p ∈ headers.iter.map toField, p.1 ≠ asBytes name := by
  intro f hf heq
  obtain ⟨p, hp, rfl⟩ := List.mem_map.mp hf
  have hsame : p.1 = name := asBytes_inj heq
  obtain ⟨⟨n, values⟩, hentry, hvalue⟩ := List.mem_flatMap.mp hp
  obtain ⟨value, -, rfl⟩ := List.mem_map.mp hvalue
  have : headers.containsKey name = true := by
    refine List.any_eq_true.mpr ⟨_, hentry, ?_⟩
    simpa using hsame
  rw [hnot] at this
  cases this

theorem readLength_fields {x : Sent A} (hx : x.Framed) (dateValue : Bytes) :
    readLength x.conn.method x.conn.status (x.fields dateValue) = some x.meaning.body.length := by
  obtain ⟨hlow, -, h204, h304⟩ := hx.status
  unfold readLength Sent.meaning
  by_cases hhead : x.conn.method = .head
  · simp [bodyless, hhead]
  · have hbody : bodyless x.conn.method x.conn.status = false := by
      simp [bodyless, hhead, h204, h304, hlow]
    rw [hbody, Sent.fields, lookup_append_ne _ _ (handler_ne hx.noLength)]
    simp only [Sent.ownFields, List.lookup_cons_self, Option.bind_some, Bool.false_eq_true, if_false,
      readDecimal_writeDecimal, if_neg hhead]

theorem readConnection_fields (x : Sent A) (dateValue : Bytes) :
    readConnection (x.fields dateValue) = some x.keepAlive := by
  have hserver : (asBytes "connection" == asBytes "server") = false := by decide
  have hdate : (asBytes "connection" == asBytes "date") = false := by decide
  unfold readConnection Sent.fields Sent.ownFields
  simp only [List.reverse_append, List.reverse_cons, List.reverse_nil, List.nil_append,
    List.cons_append, List.lookup_cons, hserver, hdate, BEq.rfl, Option.bind_some]
  cases x.keepAlive <;> decide

theorem readHeaders_fields {x : Sent A} (hx : x.Framed) (dateValue : Bytes) :
    readHeaders (x.fields dateValue) = some x.conn.respHeaders.iter := by
  have htake : (x.fields dateValue).take ((x.fields dateValue).length - 4) =
      x.conn.respHeaders.iter.map toField := by
    have hlen : (x.fields dateValue).length - 4 =
        (x.conn.respHeaders.iter.map toField).length := by
      simp [Sent.fields, Sent.ownFields]
    rw [hlen]
    exact List.take_left
  have hnames := hx.names
  unfold readHeaders
  rw [htake]
  generalize x.conn.respHeaders.iter = headers at hnames
  induction headers with
  | nil => rfl
  | cons p headers ih =>
      rw [List.map_cons, List.mapM_cons, ih fun q hq => hnames q (by simp [hq])]
      simp only [toField, fromUtf8_encode, Option.map_some,
        Option.pure_def, Option.bind_eq_bind, Option.bind_some]

theorem noTransfer_fields {x : Sent A} (hx : x.Framed) (dateValue : Bytes) :
    (x.fields dateValue).lookup (asBytes "transfer-encoding") = none := by
  rw [Sent.fields, lookup_append_ne _ _ (handler_ne hx.noTransfer)]
  have hlength : (asBytes "transfer-encoding" == asBytes "content-length") = false := by decide
  have hconnection : (asBytes "transfer-encoding" == asBytes "connection") = false := by decide
  have hdate : (asBytes "transfer-encoding" == asBytes "date") = false := by decide
  have hserver : (asBytes "transfer-encoding" == asBytes "server") = false := by decide
  simp only [Sent.ownFields, List.lookup_cons, hlength, hconnection, hdate, hserver, List.lookup_nil]

/-- One response is read back, whatever follows it. -/
theorem readResponse_bytes {r : Rendering} (hr : r.PlainReasons) {x : Sent A} (hx : x.Framed)
    (rest : Bytes) :
    readResponse x.conn.method (x.bytes r ++ rest) = some (x.meaning, rest) := by
  obtain ⟨line, dateValue, hstatus, hdate, hbytes⟩ := x.bytes_eq hr hx
  have hshape : x.bytes r ++ rest = line ++ (crlf ++ ((x.fields dateValue).flatMap writeField ++
      (crlf ++ (x.meaning.body ++ rest)))) := by
    rw [hbytes]
    simp only [List.append_assoc]
  have hlen : ¬(x.meaning.body ++ rest).length < x.meaning.body.length := by
    rw [List.length_append]
    omega
  rw [hshape, readResponse, takeLine_line hstatus.unbroken]
  simp only [Option.bind_eq_bind, Option.bind_some, hstatus.reads,
    takeFields_fields (hx.writable hdate), readLength_fields hx, readConnection_fields,
    readHeaders_fields hx, noTransfer_fields hx, Option.isSome_none, Bool.false_eq_true, hlen,
    or_self, if_false, List.take_left, List.drop_left]
  rfl

/--
**The response stream of a connection is uniquely decodable.**  Responses of any
number, with any methods, headers, bodies and flags, are recovered one by one from
what is written back to back.
-/
theorem responses_decode {r : Rendering} (hr : r.PlainReasons) (sent : List (Sent A))
    (h : ∀ x ∈ sent, x.Framed) :
    readResponses (sent.map fun x => x.conn.method) (sent.flatMap fun x => x.bytes r) =
      some (sent.map Sent.meaning) :=
  readEach_writeEach readResponse _ _ Sent.meaning sent fun x hx rest =>
    readResponse_bytes hr (h x hx) rest

/-- Reason phrases as `http` has them, here of one code that is not in the table. -/
def teapotRendering : Rendering where
  canonicalReason code := if code = 418 then some "I'm a teapot" else none
  base64Sha1 _ := ""

theorem teapotRendering_reason {code : Nat} {reason : String}
    (h : teapotRendering.canonicalReason code = some reason) : reason = "I'm a teapot" := by
  by_cases hcode : code = 418
  · simpa [teapotRendering, hcode] using h.symm
  · simp [teapotRendering, hcode] at h

def nineDate : Bytes := asBytes "date: Fri, 06 Mar 2026 09:00:00 GMT\r\n"

/-- A GET answered with two cookies, and a HEAD answered 418 on a connection that closes. -/
def twoSent : List (Sent Unit) :=
  [{ conn := { (Conn.new .get ⟨"/", none⟩ : Conn Unit) with
        respHeaders := [("set-cookie", [asBytes "a=1", asBytes "b=2"])], respBody := asBytes "hello" }
     keepAlive := true, date := nineDate },
   { conn := { (Conn.new .head ⟨"/", none⟩ : Conn Unit) with
        status := 418, respBody := asBytes "short" }
     keepAlive := false, date := nineDate }]

theorem twoSent_framed : ∀ x ∈ twoSent, x.Framed := by
  have hdate : ∃ value, Unbroken value ∧ nineDate = writeField (asBytes "date", value) :=
    ⟨asBytes "Fri, 06 Mar 2026 09:00:00 GMT", by decide, by decide⟩
  intro x hx
  simp only [twoSent, List.mem_cons, List.not_mem_nil, or_false] at hx
  rcases hx with rfl | rfl
  · refine ⟨by decide, by decide, by decide, by decide, ?_, hdate⟩
    intro p hp
    have hcases : p = ("set-cookie", asBytes "a=1") ∨ p = ("set-cookie", asBytes "b=2") := by
      simpa [HeaderMap.iter] using hp
    rcases hcases with rfl | rfl
    · exact (by decide : Unbroken (asBytes "a=1"))
    · exact (by decide : Unbroken (asBytes "b=2"))
  · refine ⟨by decide, by decide, by decide, ?_, ?_, hdate⟩
    · intro p hp
      cases hp
    · intro p hp
      cases hp

theorem responses_decode_two :
    readResponses [.get, .head] (twoSent.flatMap fun x => x.bytes teapotRendering) =
      some [⟨200, [("set-cookie", asBytes "a=1"), ("set-cookie", asBytes "b=2")], asBytes "hello", true⟩,
        ⟨418, [], [], false⟩] := by
  refine responses_decode ?_ twoSent twoSent_framed
  intro code reason hreason
  rw [teapotRendering_reason hreason]
  decide

end Mahalo.HttpParse
