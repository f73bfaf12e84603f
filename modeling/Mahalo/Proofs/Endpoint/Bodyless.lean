/-
A body where HTTP has none.

`serialize_response_into` leaves the body of a HEAD response out, and nothing else does.
A body that a handler leaves with a 1xx, a 204 or a 304 is written, and an SSE stream
writes its chunks whatever the method and the status are.  So nothing follows the blank
line exactly where there is nothing to leave out: the stream hands over no byte, or the
body is empty or that of a HEAD.
-/
import Mahalo.Endpoint.Server
import Mahalo.Proofs.Endpoint.HttpSerialize
import Mahalo.Proofs.Router.Pipelines

namespace Mahalo.Endpoint

open Interactive Router HttpParse Lines

variable {A Ω : Type}

/-! ### What is written -/

/-- The bytes that are handed to the stream. -/
def ServerEvent.written : ServerEvent A → Bytes
  | .execute _ => []
  | .response bytes | .sse bytes | .upgrade bytes | .reject bytes => bytes

def Log.written (out : Log A) : Bytes := out.flatMap ServerEvent.written

theorem Log.written_cons (e : ServerEvent A) (out : Log A) :
    Log.written (e :: out) = e.written ++ out.written := List.flatMap_cons

theorem Log.written_single (e : ServerEvent A) : Log.written [e] = e.written := List.flatMap_singleton ..

/-- The bytes behind the blank line that ends the head of a response. -/
def behindHead (bs : Bytes) : Option Bytes :=
  (takeLine bs).bind fun first => (takeFields first.2).map fun block => block.2

theorem behindHead_head {code : Nat} {line : Bytes} {fields : List Field} (hline : IsStatusLine code line)
    (hfields : ∀ f ∈ fields, f.Writable) (rest : Bytes) :
    behindHead (line ++ (crlf ++ (fields.flatMap writeField ++ (crlf ++ rest)))) = some rest := by
  unfold behindHead
  rw [takeLine_line hline.unbroken, Option.bind_some, takeFields_fields hfields]
  rfl

theorem behindHead_response {r : Rendering} (hr : r.PlainReasons) {conn : Conn A} {date : Bytes}
    (h : PlainHead conn date) (keepAlive : Bool) :
    behindHead (serializeResponseInto r date conn keepAlive)
      = some (if conn.method ≠ .head then conn.respBody else []) := by
  obtain ⟨line, dateValue, hline, hdate, hbytes⟩ := h.response_eq hr keepAlive
  rw [hbytes]
  exact behindHead_head hline (h.writable _ _ hdate) _

theorem behindHead_sse {r : Rendering} (hr : r.PlainReasons) {conn : Conn A} {date : Bytes}
    (h : PlainHead conn date) (rest : Bytes) :
    behindHead (serializeSseHeadersInto r date conn ++ rest) = some rest := by
  obtain ⟨line, dateValue, hline, hdate, hbytes⟩ := h.sse_eq hr
  have hshape : serializeSseHeadersInto r date conn ++ rest = line ++ (crlf ++
      ((conn.respHeaders.iter.map toField ++ endFields none false dateValue).flatMap writeField ++
        (crlf ++ rest))) := by
    rw [hbytes]
    simp only [List.append_assoc]
  rw [hshape]
  exact behindHead_head hline (h.writable _ _ hdate) _

/-! ### The chunks of a stream -/

/-- Every chunk that is handed over is empty; the first of them is the event number `n`. -/
def Silent (outside : Outside Ω) (n : Nat) (chunks : List Bytes) : Prop :=
  ∀ i chunk, chunks[i]? = some chunk → (∀ j < i, outside.accepts (n + j) = true) → chunk = []

theorem silent_cons {outside : Outside Ω} {n : Nat} {first : Bytes} {rest : List Bytes} :
    Silent outside n (first :: rest) ↔
      first = [] ∧ (outside.accepts n = true → Silent outside (n + 1) rest) := by
  constructor
  · intro hall
    refine ⟨hall 0 first rfl fun j hj => absurd hj (Nat.not_lt_zero j), ?_⟩
    intro haccepts i chunk hi hbefore
    refine hall (i + 1) chunk hi fun j hj => ?_
    cases j with
    | zero => exact haccepts
    | succ j =>
        have haccepted := hbefore j (by omega)
        rwa [show n + 1 + j = n + (j + 1) from by omega] at haccepted
  · rintro ⟨hfirst, hrest⟩ i chunk hi hbefore
    cases i with
    | zero =>
        cases hi
        exact hfirst
    | succ i =>
        refine hrest (hbefore 0 (Nat.succ_pos i)) i chunk hi fun j hj => ?_
        have haccepted := hbefore (j + 1) (by omega)
        rwa [show n + (j + 1) = n + 1 + j from by omega] at haccepted

/-- What the streaming loop writes before a write fails or the stream ends. -/
theorem sseStreamingLoop_written (outside : Outside Ω) (chunks : List Bytes) :
    ∀ out : Log A, ∃ wrote : Log A, sseStreamingLoop outside out chunks = out ++ wrote ∧
      (wrote.written = [] ↔ Silent outside out.length chunks) := by
  induction chunks with
  | nil =>
      intro out
      refine ⟨[], (List.append_nil out).symm, iff_of_true rfl ?_⟩
      intro i chunk hi
      cases hi
  | cons first rest ih =>
      intro out
      unfold sseStreamingLoop
      rw [silent_cons]
      by_cases haccepts : outside.accepts out.length = true
      · obtain ⟨wrote, hloop, hwrote⟩ := ih (out ++ [.sse first])
        rw [List.length_append, List.length_singleton] at hwrote
        refine ⟨.sse first :: wrote, ?_, ?_⟩
        · rw [if_pos haccepts, hloop, List.append_assoc]
          rfl
        · rw [Log.written_cons, List.append_eq_nil_iff, hwrote]
          exact and_congr_right fun _ => (imp_iff_right haccepts).symm
      · refine ⟨[.sse first], if_neg haccepts, ?_⟩
        rw [Log.written_single]
        exact (and_iff_left fun haccepted => absurd haccepted haccepts).symm

/-! ### The answer to a request -/

/-- There is nothing to write behind the head, which is the event number `n` of the connection. -/
inductive NothingBehind (srv : Server A Ω) (outside : Outside Ω) (n : Nat) (conn : Conn A) : Prop where
  | head (hsse : conn.assigns.bind srv.sse = none) (h : conn.method = .head)
  | empty (hsse : conn.assigns.bind srv.sse = none) (h : conn.respBody = [])
  | refused (chunks : List Bytes) (hsse : conn.assigns.bind srv.sse = some chunks)
      (h : outside.accepts n = false)
  | stream (chunks : List Bytes) (hsse : conn.assigns.bind srv.sse = some chunks)
      (h : ∀ i chunk, chunks[i]? = some chunk →
        (∀ j < i, outside.accepts (n + 1 + j) = true) → chunk = [])

theorem nothingBehind_plain {srv : Server A Ω} {outside : Outside Ω} {n : Nat} {conn : Conn A}
    (hsse : conn.assigns.bind srv.sse = none) :
    NothingBehind srv outside n conn ↔ conn.method = .head ∨ conn.respBody = [] := by
  constructor
  · intro h
    cases h with
    | head _ h => exact Or.inl h
    | empty _ h => exact Or.inr h
    | refused chunks hsome _ => rw [hsse] at hsome; cases hsome
    | stream chunks hsome _ => rw [hsse] at hsome; cases hsome
  · rintro (hmethod | hempty)
    · exact .head hsse hmethod
    · exact .empty hsse hempty

theorem nothingBehind_stream {srv : Server A Ω} {outside : Outside Ω} {n : Nat} {conn : Conn A}
    {chunks : List Bytes} (hsse : conn.assigns.bind srv.sse = some chunks) :
    NothingBehind srv outside n conn ↔
      (outside.accepts n = true → Silent outside (n + 1) chunks) := by
  constructor
  · intro h haccepts
    cases h with
    | head hnone _ => rw [hsse] at hnone; cases hnone
    | empty hnone _ => rw [hsse] at hnone; cases hnone
    | refused _ _ h => rw [haccepts] at h; cases h
    | stream chunks' hsome h =>
        rw [hsse] at hsome
        cases hsome
        exact h
  · intro h
    cases haccepts : outside.accepts n with
    | false => exact .refused chunks hsse haccepts
    | true => exact .stream chunks hsse (h haccepts)

theorem respond_behindHead (srv : Server A Ω) (outside : Outside Ω) (hr : srv.rendering.PlainReasons)
    (out : Log A) {conn : Conn A} (hplain : PlainHead conn (outside.date out.length)) (keepAlive : Bool) :
    ∃ wrote : Log A, (srv.respond outside out conn keepAlive).1 = out ++ wrote ∧
      (behindHead wrote.written = some [] ↔ NothingBehind srv outside out.length conn) := by
  unfold Server.respond
  cases hsse : conn.assigns.bind srv.sse with
  | none =>
      refine ⟨_, rfl, ?_⟩
      rw [Log.written_single, nothingBehind_plain hsse]
      show behindHead (serializeResponseInto srv.rendering (outside.date out.length) conn keepAlive)
        = some [] ↔ _
      rw [behindHead_response hr hplain, Option.some.injEq]
      by_cases hmethod : conn.method = .head
      · rw [if_neg (not_not_intro hmethod)]
        exact iff_of_true rfl (Or.inl hmethod)
      · rw [if_pos hmethod]
        exact (or_iff_right hmethod).symm
  | some chunks =>
      dsimp only
      rw [nothingBehind_stream hsse]
      have hhead := behindHead_sse hr hplain
      by_cases haccepts : outside.accepts out.length = true
      · rw [if_pos haccepts]
        obtain ⟨wrote, hloop, hwrote⟩ := sseStreamingLoop_written outside chunks
          (out ++ [.sse (serializeSseHeadersInto srv.rendering (outside.date out.length) conn)])
        rw [List.length_append, List.length_singleton] at hwrote
        refine ⟨_ :: wrote, hloop.trans (List.append_assoc ..), ?_⟩
        show behindHead (Log.written (_ :: wrote)) = some [] ↔ _
        rw [Log.written_cons]
        show behindHead (serializeSseHeadersInto srv.rendering (outside.date out.length) conn ++ _)
          = some [] ↔ _
        rw [hhead, Option.some.injEq, hwrote]
        exact (imp_iff_right haccepts).symm
      · rw [if_neg haccepts]
        refine ⟨_, rfl, ?_⟩
        rw [Log.written_single, ← List.append_nil (ServerEvent.written _)]
        show behindHead (serializeSseHeadersInto srv.rendering (outside.date out.length) conn ++ [])
          = some [] ↔ _
        rw [hhead]
        exact iff_of_true rfl fun haccepted => absurd haccepted haccepts

/--
**A body is written where HTTP has none.**  For a request by HEAD, or a response with a
1xx, 204 or 304, nothing is written behind the blank line if and only if there is
nothing: a response that is not a stream has an empty body or is still one by HEAD when
the plugs are done, and a stream hands over no byte.
-/
theorem bodyless_silent_iff (srv : Server A Ω) (outside : Outside Ω) (hr : srv.rendering.PlainReasons)
    (out : Log A) (parsed : ParsedRequest A) (hupgrade : parsed.wsKey = none ∨ srv.websockets = false)
    {run : Run A Ω (Conn A)} (hrun : srv.executeRequest parsed.conn = .ok run) {conn : Conn A}
    (hconn : run.eval (outside.answer out.length) 0 = conn)
    (hplain : PlainHead conn (outside.date (out.length + 1)))
    (_hbodyless : bodyless parsed.conn.method conn.status = true) :
    ∃ wrote : Log A, (srv.executeAndRespond outside out parsed).1 = out ++ wrote ∧
      (behindHead wrote.written = some [] ↔ NothingBehind srv outside (out.length + 1) conn) := by
  have hlength : (out ++ [ServerEvent.execute parsed.conn]).length = out.length + 1 := List.length_append
  have hstep : (srv.executeAndRespond outside out parsed).1
      = (srv.respond outside (out ++ [.execute parsed.conn]) conn parsed.keepAlive).1 := by
    unfold Server.executeAndRespond
    split
    · rename_i wsKey hkey hsockets
      rcases hupgrade with hnone | hoff
      · rw [hnone] at hkey
        cases hkey
      · rw [hoff] at hsockets
        cases hsockets
    · dsimp only
      rw [hrun]
      dsimp only
      rw [hconn]
  obtain ⟨wrote, hwrote, hiff⟩ := respond_behindHead srv outside hr (out ++ [.execute parsed.conn])
    (by rw [hlength]; exact hplain) parsed.keepAlive
  rw [hlength] at hiff
  refine ⟨.execute parsed.conn :: wrote, ?_, ?_⟩
  · rw [hstep, hwrote, List.append_assoc]
    rfl
  · rw [Log.written_cons]
    exact hiff

/-- A feed, and a page that is answered 204 with a text. -/
def feedServer : Server (List Bytes) Unit where
  matchit := exactPaths
  router := build [
    .route .get "/feed" (.syncPlugFn fun conn => { conn with
      assigns := some [RustStd.asBytes "data: 1\n\n"] }) none,
    .route .get "/gone" (.syncPlugFn fun conn => { conn with
      status := 204, respBody := RustStd.asBytes "gone" }) none]
  errorHandler := none
  afterPlugs := []
  lib := { parse := fun _ => .incomplete, methodFromBytes := fun _ => none, uriFromStr := fun _ => none,
           headerNameFromBytes := fun _ => none }
  rendering := { canonicalReason := fun _ => none, base64Sha1 := fun _ => "" }
  bodyLimit := 1024
  peerAddr := "10.0.0.1:4000"
  isTls := false
  websockets := false
  sse := some
  profile := .release

def allWritten : Outside Unit :=
  { waits := fun _ _ => (), accepts := fun _ => true, date := fun _ => nineDate }

def asked (method : Method) (path : String) : ParsedRequest (List Bytes) where
  conn := Conn.new method { path, query := none }
  keepAlive := true
  bytesConsumed := 0
  wsKey := none

def feedConn : Conn (List Bytes) :=
  { (asked .head "/feed").conn with assigns := some [RustStd.asBytes "data: 1\n\n"] }

theorem feedConn_plain : PlainHead feedConn nineDate where
  status := by decide
  names := fun p hp => absurd hp List.not_mem_nil
  values := fun p hp => absurd hp List.not_mem_nil
  date := ⟨RustStd.asBytes "Fri, 06 Mar 2026 09:00:00 GMT", by decide, by decide⟩

theorem bodyless_silent_iff_feed : ∃ wrote : Log (List Bytes),
    (feedServer.executeAndRespond allWritten [] (asked .head "/feed")).1 = [] ++ wrote ∧
      (behindHead wrote.written = some [] ↔ NothingBehind feedServer allWritten 1 feedConn) := by
  obtain ⟨run, hrun⟩ : ∃ run, feedServer.executeRequest (asked .head "/feed").conn = .ok run := ⟨_, rfl⟩
  have hconn : run.eval (allWritten.answer 0) 0 = feedConn := by
    cases hrun
    rfl
  exact bodyless_silent_iff feedServer allWritten (fun code reason h => by cases h) []
    (asked .head "/feed") (.inl rfl) hrun hconn feedConn_plain rfl

/-- The feed is streamed to a HEAD, and the text of the 204 is written. -/
theorem bodies_written :
    behindHead (feedServer.executeAndRespond allWritten [] (asked .head "/feed")).1.written
        = some (RustStd.asBytes "data: 1\n\n") ∧
      behindHead (feedServer.executeAndRespond allWritten [] (asked .get "/gone")).1.written
        = some (RustStd.asBytes "gone") := by
  decide +kernel

end Mahalo.Endpoint
