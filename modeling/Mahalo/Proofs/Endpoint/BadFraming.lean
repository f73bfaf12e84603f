/-
Malformed body framing is not looked for.

The loop over the headers keeps what the last Content-Length with a readable text came
to, and nothing where that was no number, and no other field is asked about the body.
So a header block with a bad Content-Length, with two that differ, or with a
Transfer-Encoding is framed like any other, and is rejected only for what any other
would be rejected for.
-/
import Mahalo.Proofs.Endpoint.HttpParse
import Mathlib.Data.List.Induction

namespace Mahalo.HttpParse

variable {A : Type}

/-! ### Bad framing -/

/-- The trimmed text is a non-empty string of digits, and its number fits `usize`. -/
def WellFormedLength (value : List UInt8) : Prop :=
  ∃ s n, RustStd.fromUtf8 value = some s ∧ RustStd.trim s.toList ≠ [] ∧
    RustStd.parseDigits 0 (RustStd.trim s.toList) = some n ∧ n < 2 ^ 64

def isTransferEncoding (h : Header) : Bool := RustStd.eqIgnoreAsciiCase h.name "transfer-encoding"

inductive BadFraming (headers : List Header) : Prop where
  | length (h : Header) (hh : h ∈ headers) (hlength : isContentLength h = true)
      (hbad : ¬WellFormedLength h.value)
  | lengths (h h' : Header) (hh : h ∈ headers) (hh' : h' ∈ headers) (hlength : isContentLength h = true)
      (hlength' : isContentLength h' = true) (hdiffer : h.value ≠ h'.value)
  | encoding (h : Header) (hh : h ∈ headers) (hencoding : isTransferEncoding h = true)

/-! ### What is read all the same -/

/-- The text of the last Content-Length that is UTF-8. -/
def lastLength (headers : List Header) : Option String :=
  ((headers.filter isContentLength).filterMap fun h => RustStd.fromUtf8 h.value).getLast?

/-- The number of body bytes that are taken: that text's number, or none. -/
def takenLength (method : Method) (headers : List Header) : Nat :=
  match method with
  | .get | .head | .delete => 0
  | _ => ((lastLength headers).bind fun s => RustStd.parseUsize (RustStd.trim s.toList)).getD 0

theorem foldl_lengthAfter (hs : List Header) (found : Option Nat) :
    hs.foldl lengthAfter found =
      match (hs.filterMap fun h => RustStd.fromUtf8 h.value).getLast? with
      | some s => RustStd.parseUsize (RustStd.trim s.toList)
      | none => found := by
  induction hs using List.reverseRecOn with
  | nil => rfl
  | append_singleton hs h ih =>
      rw [List.foldl_append, List.filterMap_append, List.foldl_cons, List.foldl_nil, ih]
      unfold lengthAfter
      cases hutf8 : RustStd.fromUtf8 h.value with
      | none => simp [hutf8]
      | some s => simp [hutf8]

theorem scan_last (headers : List Header) :
    (headers.foldl scanHeader (none, none)).1
      = (lastLength headers).bind fun s => RustStd.parseUsize (RustStd.trim s.toList) := by
  rw [scan_length, foldl_lengthAfter]
  unfold lastLength
  cases ((headers.filter isContentLength).filterMap fun h => RustStd.fromUtf8 h.value).getLast? <;> rfl

theorem bodyLen_taken {raw : RawParsed}
    (h : raw.contentLength = (raw.headers.foldl scanHeader (none, none)).1) :
    raw.bodyLen = takenLength raw.method raw.headers := by
  have hlast := h.trans (scan_last raw.headers)
  unfold RawParsed.bodyLen takenLength
  cases raw.method <;> simp only [hlast]

/-! ### The reasons to reject a request -/

theorem appendHeaders_error {lib : HttpLib} {headers : List Header} :
    ∀ map, appendHeaders lib map headers = .error .invalidRequest ↔
      ∃ h ∈ headers, nameAccepted lib h = false := by
  induction headers with
  | nil => intro map; simp [appendHeaders]
  | cons x rest ih =>
      intro map
      unfold appendHeaders
      cases hname : (fastHeaderName x.name).or (lib.headerNameFromBytes x.name) with
      | none =>
          refine iff_of_true rfl ⟨x, List.mem_cons_self .., ?_⟩
          unfold nameAccepted
          rw [hname]
          rfl
      | some name =>
          have haccepted : nameAccepted lib x = true := by
            unfold nameAccepted
            rw [hname]
            rfl
          dsimp only
          rw [ih]
          constructor
          · rintro ⟨h, hh, hbad⟩
            exact ⟨h, List.mem_cons_of_mem _ hh, hbad⟩
          · rintro ⟨h, hh, hbad⟩
            rcases List.mem_cons.mp hh with rfl | hh
            · rw [haccepted] at hbad
              cases hbad
            · exact ⟨h, hh, hbad⟩

theorem finalize_cases (raw : RawParsed) (buf : List UInt8) (bodyLimit : Nat) :
    finalizeBodyAndKeepalive raw buf bodyLimit = .error .bodyTooLarge ∧ bodyLimit < raw.bodyLen ∨
      finalizeBodyAndKeepalive raw buf bodyLimit = .ok none ∧ buf.length < raw.headerLen + raw.bodyLen ∨
        raw.bodyLen ≤ bodyLimit ∧ raw.headerLen + raw.bodyLen ≤ buf.length := by
  unfold finalizeBodyAndKeepalive
  by_cases hlimit : raw.bodyLen > bodyLimit
  · rw [if_pos hlimit]
    exact .inl ⟨rfl, hlimit⟩
  · rw [if_neg hlimit]
    dsimp only
    by_cases hshort : buf.length < raw.headerLen + raw.bodyLen
    · rw [if_pos hshort]
      exact .inr (.inl ⟨rfl, hshort⟩)
    · exact .inr (.inr ⟨by omega, by omega⟩)

/-- Behind a header block that was taken apart only a header name is still looked at. -/
theorem tryParse_error {lib : HttpLib} {buf : List UInt8} {raw : RawParsed} (bodyLimit : Nat)
    (peerAddr : String) (hraw : parseRaw lib buf = .ok (some raw)) :
    (tryParseRequest lib buf bodyLimit peerAddr : Except ParseError (Option (ParsedRequest A)))
        = .error .invalidRequest ↔
      (raw.bodyLen ≤ bodyLimit ∧ raw.headerLen + raw.bodyLen ≤ buf.length) ∧
        ∃ h ∈ raw.headers, nameAccepted lib h = false := by
  unfold tryParseRequest
  rw [hraw]
  dsimp only
  rcases finalize_cases raw buf bodyLimit with ⟨herror, hlimit⟩ | ⟨hnone, hshort⟩ | ⟨hlimit, hbuf⟩
  · rw [herror]
    exact iff_of_false (fun h => by cases h) fun h => absurd h.1.1 (by omega)
  · rw [hnone]
    exact iff_of_false (fun h => by cases h) fun h => absurd h.1.2 (by omega)
  · rw [finalize_complete hlimit hbuf]
    dsimp only
    rw [and_iff_right ⟨hlimit, hbuf⟩, ← appendHeaders_error ([] : HeaderMap)]
    unfold buildHeaderMap
    cases appendHeaders lib [] raw.headers with
    | error e => constructor <;> intro h <;> cases h <;> rfl
    | ok map => constructor <;> intro h <;> cases h

/-- What a complete header block is rejected for. -/
inductive Rejects (lib : HttpLib) (buf : List UInt8) (bodyLimit headerLen : Nat) (req : Request) : Prop where
  | method (h : req.method.bind lib.methodFromBytes = none)
  | target (h : req.path.bind lib.uriFromStr = none)
  | name (method : Method) (hmethod : req.method.bind lib.methodFromBytes = some method)
      (hlimit : takenLength method req.headers ≤ bodyLimit)
      (hbody : headerLen + takenLength method req.headers ≤ buf.length)
      (h : Header) (hh : h ∈ req.headers) (hname : nameAccepted lib h = false)

/--
**Bad framing is rejected only by accident.**  A complete header block with bad framing
is an invalid request if and only if its method or its target is not accepted, or its
body, as long as it is taken to be, is within the limit and there, and one of its header
names is not accepted.
-/
theorem bad_framing_rejected_iff (lib : HttpLib) (buf : List UInt8) (bodyLimit : Nat) (peerAddr : String)
    {headerLen : Nat} {req : Request} (hparse : lib.parse buf = .complete headerLen req)
    (_hbad : BadFraming req.headers) :
    (tryParseRequest lib buf bodyLimit peerAddr : Except ParseError (Option (ParsedRequest A)))
        = .error .invalidRequest ↔
      Rejects lib buf bodyLimit headerLen req := by
  have hrejected : parseRaw lib buf = .error .invalidRequest →
      (tryParseRequest lib buf bodyLimit peerAddr : Except ParseError (Option (ParsedRequest A)))
        = .error .invalidRequest := by
    intro hraw
    unfold tryParseRequest
    rw [hraw]
  cases hmethod : req.method.bind lib.methodFromBytes with
  | none => exact iff_of_true (hrejected (parseRaw_rejected hparse (.inl hmethod))) (.method hmethod)
  | some method =>
      cases huri : req.path.bind lib.uriFromStr with
      | none => exact iff_of_true (hrejected (parseRaw_rejected hparse (.inr huri))) (.target huri)
      | some uri =>
          rw [tryParse_error bodyLimit peerAddr (parseRaw_complete hparse hmethod huri), bodyLen_taken rfl]
          constructor
          · rintro ⟨⟨hlimit, hbuf⟩, h, hh, hname⟩
            exact .name method hmethod hlimit hbuf h hh hname
          · intro h
            cases h with
            | method h =>
                rw [hmethod] at h
                cases h
            | target h =>
                rw [huri] at h
                cases h
            | name m hm hlimit hbody h hh hname =>
                rw [hmethod] at hm
                cases hm
                exact ⟨⟨hlimit, hbody⟩, h, hh, hname⟩

/-- A POST that lists its length twice, with five bytes behind its header block. -/
def listed : Request :=
  { method := some "POST", path := some "/", version := some 1
    headers := [{ name := "Content-Length", value := RustStd.asBytes "5, 5" }] }

def listedHead : List UInt8 :=
  RustStd.asBytes "POST / HTTP/1.1\r\nContent-Length: 5, 5\r\n\r\n"

def listedBuf : List UInt8 := listedHead ++ RustStd.asBytes "hello"

theorem listed_bad : BadFraming listed.headers :=
  .length { name := "Content-Length", value := RustStd.asBytes "5, 5" } (List.mem_singleton.mpr rfl)
    (by decide) (by
      rintro ⟨s, n, hs, -, hn, -⟩
      have htext : RustStd.fromUtf8 (RustStd.asBytes "5, 5") = some "5, 5" := by decide
      rw [htext] at hs
      cases hs
      have hnone : RustStd.parseDigits 0 (RustStd.trim "5, 5".toList) = none := by decide
      rw [hnone] at hn
      cases hn)

theorem bad_framing_rejected_iff_listed :
    (tryParseRequest (oneRequestLib listedHead listed .post) listedBuf 1024 "10.0.0.1:4000" :
        Except ParseError (Option (ParsedRequest Unit))) = .error .invalidRequest ↔
      Rejects (oneRequestLib listedHead listed .post) listedBuf 1024 41 listed :=
  bad_framing_rejected_iff _ _ 1024 _ (by decide) listed_bad

/-- The list is no number, so the request is taken with no body, and its body as the next request. -/
theorem listed_body_left_behind :
    (oneRequestLib listedHead listed .post).parse listedBuf = .complete 41 listed ∧
      BadFraming listed.headers ∧
      ∃ parsed : ParsedRequest Unit,
        tryParseRequest (oneRequestLib listedHead listed .post) listedBuf 1024 "10.0.0.1:4000"
            = .ok (some parsed) ∧
          parsed.conn.body = [] ∧ parsed.bytesConsumed = 41 ∧
          listedBuf.drop parsed.bytesConsumed = RustStd.asBytes "hello" :=
  ⟨by decide, listed_bad, _, rfl, rfl, rfl, by decide⟩

end Mahalo.HttpParse
