/-
Conditional requests, and when they are answered by the rule.

By the rule a client that has what it asks for is told so with a 304: if the method is GET or HEAD,
and `*` or a tag weakly equal to that of the full answer is among what it sends.  The two plugs
compare the first value of If-None-Match as a whole with the tag as they write it.  So they follow
the rule where the client sends that alone or has nothing that matches; and the plug that tags
answers, which does not look at the method, has to be given another request than GET or HEAD
without it.
-/
import Mahalo.Lib.EntityTags
import Mahalo.Lib.FieldLists
import Mahalo.Plug.ETag
import Mahalo.Proofs.Endpoint.HttpParse
import Mahalo.Proofs.Plug.Reading

namespace Mahalo

open FileTree RustStd EntityTags

variable {A : Type} {blake3 : List UInt8 → List UInt8}

/-! ### The rule -/

/-- All values of a name. -/
def HeaderMap.getAll (map : HeaderMap) (name : String) : List (List UInt8) :=
  (map.find? fun (n, _) => n == name).elim [] fun (_, values) => values

theorem HeaderMap.mem_getAll {map : HeaderMap} {name : String} {value : List UInt8} (h : map.get name = some value) :
    value ∈ map.getAll name := by
  unfold HeaderMap.get at h
  unfold HeaderMap.getAll
  obtain ⟨entry, hentry, hvalue⟩ := Option.bind_eq_some_iff.mp h
  rw [hentry]
  exact List.mem_of_mem_head? hvalue

namespace Conn

/-- The request without its condition. -/
def unconditional (conn : Conn A) : Conn A := { conn with headers := conn.headers.without "if-none-match" }

/-- The client sends `*`, or a tag that is weakly equal to that of the answer. -/
def Has (conn : Conn A) (etag : Option (List UInt8)) : Prop :=
  ∃ value ∈ conn.headers.getAll "if-none-match", FieldLists.trimBlanks value = asBytes "*" ∨
    ∃ tag ∈ read value, ∃ own ∈ etag, ∃ ownTag ∈ read own, weaklyEqual tag ownTag = true

/-- The request is one to be answered with a 304, if `full` is the answer to it without its condition. -/
def NotModified (conn full : Conn A) : Prop :=
  (conn.method = .get ∨ conn.method = .head) ∧ conn.Has (full.respHeaders.get "etag")

/-- The answer is a 304 with an empty body if it is to be, and the full answer if not. -/
structure FollowsRule (conn answer full : Conn A) : Prop where
  notModified : conn.NotModified full → answer.status = statusNotModified ∧ answer.respBody = []
  otherwise : ¬conn.NotModified full → answer.status = full.status ∧ answer.respBody = full.respBody ∧
    answer.respHeaders.without "etag" = full.respHeaders.without "etag"

/-- The first value that the client sends is the tag, as it is written here, and nothing else. -/
def SendsAlone (conn : Conn A) (tag : String) : Prop :=
  (conn.headers.get "if-none-match").bind HttpParse.toStr = some tag

instance (conn : Conn A) (tag : String) : Decidable (conn.SendsAlone tag) := inferInstanceAs (Decidable (_ = _))

/-- An answer that is a 304 follows the rule where one is to be given, and any other full one where none is. -/
theorem followsRule_iff (conn : Conn A) {answer full : Conn A} (sent : Prop) (hfull : full.status = statusOk)
    (hsent : sent → answer.status = statusNotModified ∧ answer.respBody = [])
    (hnot : ¬sent → answer.status = full.status ∧ answer.respBody = full.respBody ∧
      answer.respHeaders.without "etag" = full.respHeaders.without "etag") :
    FollowsRule conn answer full ↔ (conn.NotModified full ↔ sent) := by
  constructor
  · intro h
    constructor
    · intro hmodified
      by_contra hno
      have hstatus := (h.notModified hmodified).1.symm.trans ((hnot hno).1.trans hfull)
      exact absurd hstatus (by decide)
    · intro hyes
      by_contra hmodified
      have hstatus := (hsent hyes).1.symm.trans ((h.otherwise hmodified).1.trans hfull)
      exact absurd hstatus (by decide)
  · intro h
    exact ⟨fun hmodified => hsent (h.mp hmodified), fun hmodified => hnot fun hyes => hmodified (h.mpr hyes)⟩

end Conn

/-! ### The tag that the plugs write -/

open StaticFiles

theorem read_etagValue (contents : List UInt8) :
    read (asBytes (etagValue blake3 contents)) = [{ weak := true, text := tagText blake3 contents }] := by
  have hquote : quote ∉ tagText blake3 contents := fun h => (tagText_visible contents _ h).2.2 rfl
  have hread : read (write { weak := true, text := tagText blake3 contents } ++ []) = _ := read_write hquote []
  rw [List.append_nil] at hread
  rw [asBytes_etagValue]
  exact hread

/-- A client that sends the tag alone has it. -/
theorem has_of_sendsAlone {conn : Conn A} {contents : List UInt8}
    (h : conn.SendsAlone (etagValue blake3 contents)) : conn.Has (some (asBytes (etagValue blake3 contents))) := by
  obtain ⟨value, hvalue, htext⟩ := Option.bind_eq_some_iff.mp h
  refine ⟨value, HeaderMap.mem_getAll hvalue, .inr ?_⟩
  rw [← HttpParse.asBytes_of_toStr htext, read_etagValue]
  exact ⟨_, List.mem_singleton_self _, _, rfl, _, by rw [read_etagValue]; exact List.mem_singleton_self _,
    by simp [weaklyEqual]⟩

/-! ### The two plugs -/

theorem get_unconditional (conn : Conn A) (name : String) : conn.unconditional.headers.get name =
    if "if-none-match" = name then none else conn.headers.get name :=
  HeaderMap.get_without ..

/-- The answer to a request for a file that can be read, and the one without the request's condition. -/
theorem static_followsRule_iff {files : StaticFiles} {fs : Tree} {conn : Conn A} {r : Reading}
    (h : files.reading fs conn = some r) :
    conn.FollowsRule (files.call blake3 fs conn).1 (files.call blake3 fs conn.unconditional).1 ↔
      (conn.Has (some (asBytes (etagValue blake3 r.served.contents))) →
        conn.SendsAlone (etagValue blake3 r.served.contents)) := by
  have hfull : files.reading fs conn.unconditional = some r := by
    rw [← h]
    refine reading_congr rfl Iff.rfl ?_
    rw [acceptEncoding, get_unconditional, if_neg (by decide)]
    rfl
  obtain ⟨path, c, d, hfor, _⟩ := reading_iff.mp h
  rw [call_eq, call_eq, h, hfull]
  have hnone : (checkEtag blake3 conn.unconditional r.served.contents).2 = false := by
    simp [checkEtag, get_unconditional]
  have hmatch : (checkEtag blake3 conn r.served.contents).2 = true ↔
      conn.SendsAlone (etagValue blake3 r.served.contents) := by
    unfold checkEtag Conn.SendsAlone
    cases (conn.headers.get "if-none-match").bind HttpParse.toStr <;> simp
  obtain ⟨hfields, _, hanswer⟩ := answer_cases blake3 files conn r
  obtain ⟨hfields', _, hanswer'⟩ := answer_cases blake3 files conn.unconditional r
  rw [hnone, if_neg (by simp)] at hanswer'
  have hmodified : conn.NotModified (answer blake3 files conn.unconditional r) ↔
      conn.Has (some (asBytes (etagValue blake3 r.served.contents))) := by
    rw [Conn.NotModified, hfields', get_tag]
    exact and_iff_right hfor.method
  rw [Conn.followsRule_iff conn (conn.SendsAlone (etagValue blake3 r.served.contents)) hanswer'.1]
  · rw [hmodified]
    exact ⟨fun hiff => hiff.mp, fun himp => ⟨himp, has_of_sendsAlone⟩⟩
  · intro hsent
    rwa [if_pos (hmatch.mpr hsent)] at hanswer
  · intro hnot
    rw [if_neg (fun hm => hnot (hmatch.mp hm))] at hanswer
    refine ⟨hanswer.1.trans hanswer'.1.symm, hanswer.2.trans hanswer'.2.symm, ?_⟩
    rw [hfields, hfields']
    rfl

/-- A client that lists the tag among others is sent the whole file again. -/
theorem listed_not_followed {files : StaticFiles} {fs : Tree} {conn : Conn A} {r : Reading}
    (h : files.reading fs conn = some r) {tags : List Tag} (hquotes : ∀ tag ∈ tags, quote ∉ tag.text)
    (hvalue : conn.headers.get "if-none-match" = some (comma.intercalate (tags.map write)))
    (hlisted : ∃ tag ∈ tags, tag.text = tagText blake3 r.served.contents) (hothers : tags.length ≠ 1) :
    ¬conn.FollowsRule (files.call blake3 fs conn).1 (files.call blake3 fs conn.unconditional).1 := by
  rw [static_followsRule_iff h]
  intro himp
  have hread := read_list hquotes
  have halone : conn.SendsAlone (etagValue blake3 r.served.contents) := by
    obtain ⟨tag, htag, htext⟩ := hlisted
    refine himp ⟨_, HeaderMap.mem_getAll hvalue, .inr ⟨tag, hread.symm ▸ htag, _, rfl, ?_⟩⟩
    rw [read_etagValue]
    exact ⟨_, List.mem_singleton_self _, by simp [weaklyEqual, htext]⟩
  obtain ⟨value, hfirst, htext⟩ := Option.bind_eq_some_iff.mp halone
  obtain rfl := Option.some.inj (hvalue.symm.trans hfirst)
  rw [← HttpParse.asBytes_of_toStr htext, read_etagValue] at hread
  exact hothers (by rw [← hread]; rfl)

/-- The tag of an answer that the plug has seen: an empty one keeps what it came with. -/
def ETag.carried (blake3 : List UInt8 → List UInt8) (conn : Conn A) : Option (List UInt8) :=
  if conn.respBody = [] then conn.respHeaders.get "etag" else some (asBytes (etagValue blake3 conn.respBody))

/-- The full answer: what the handler made, with the tag on it if there is a body. -/
theorem ETag.call_unconditional {conn : Conn A} (hstatus : conn.status = statusOk) :
    ETag.call blake3 conn.unconditional = if conn.respBody = [] then conn.unconditional
      else conn.unconditional.putRespHeader "etag" (etagValue blake3 conn.respBody) := by
  have hstatus' : conn.unconditional.status = statusOk := hstatus
  have hbody : conn.unconditional.respBody = conn.respBody := rfl
  have hnone : conn.unconditional.headers.get "if-none-match" = none := by
    rw [get_unconditional, if_pos rfl]
  unfold ETag.call
  by_cases hempty : conn.respBody = []
  · simp [hbody, hempty]
  · simp [hstatus', hbody, hempty, hnone]

theorem ETag.call_sent {conn : Conn A} (hstatus : conn.status = statusOk) (hbody : conn.respBody ≠ []) :
    ETag.call blake3 conn = if conn.SendsAlone (etagValue blake3 conn.respBody) then
      (((conn.putRespHeader "etag" (etagValue blake3 conn.respBody)).putStatus statusNotModified).putRespBody
        []).halt
    else conn.putRespHeader "etag" (etagValue blake3 conn.respBody) := by
  unfold ETag.call
  rw [if_neg (by simp [hstatus, hbody])]
  rfl

theorem etag_followsRule_iff {conn : Conn A} (hstatus : conn.status = statusOk) :
    conn.FollowsRule (ETag.call blake3 conn) (ETag.call blake3 conn.unconditional) ↔
      if conn.method = .get ∨ conn.method = .head then
        conn.Has (ETag.carried blake3 conn) → conn.SendsAlone (etagValue blake3 conn.respBody) ∧ conn.respBody ≠ []
      else ¬(conn.SendsAlone (etagValue blake3 conn.respBody) ∧ conn.respBody ≠ []) := by
  have hfull : ETag.call blake3 conn.unconditional = _ := ETag.call_unconditional hstatus
  have hfullStatus : (ETag.call blake3 conn.unconditional).status = statusOk := by
    rw [hfull]
    split
    · exact hstatus
    · rw [putRespHeader_status]
      exact hstatus
  have htag : (ETag.call blake3 conn.unconditional).respHeaders.get "etag" = ETag.carried blake3 conn := by
    rw [hfull, ETag.carried]
    split
    · rfl
    · exact get_etag _ _
  rw [Conn.followsRule_iff conn (conn.SendsAlone (etagValue blake3 conn.respBody) ∧ conn.respBody ≠ []) hfullStatus]
  · rw [Conn.NotModified, htag]
    by_cases hmethod : conn.method = .get ∨ conn.method = .head
    · rw [if_pos hmethod, and_iff_right hmethod]
      constructor
      · exact fun hiff => hiff.mp
      · intro himp
        refine ⟨himp, fun hsent => ?_⟩
        rw [ETag.carried, if_neg hsent.2]
        exact has_of_sendsAlone hsent.1
    · rw [if_neg hmethod]
      tauto
  · rintro ⟨hsent, hbody⟩
    rw [ETag.call_sent hstatus hbody, if_pos hsent]
    exact ⟨rfl, rfl⟩
  · intro hnot
    by_cases hbody : conn.respBody = []
    · have hcall : ETag.call blake3 conn = conn := if_pos (.inr hbody)
      rw [hcall, hfull, if_pos hbody]
      exact ⟨rfl, rfl, rfl⟩
    · rw [ETag.call_sent hstatus hbody, if_neg fun hsent => hnot ⟨hsent, hbody⟩, hfull, if_neg hbody]
      simp [Conn.putRespHeader_eq, Conn.unconditional]

/--
**When conditional requests are answered by the rule.**  Of a request that StaticFiles answers, and of one
whose handler made an answer with status 200; what else there is, either plug gives back.
-/
theorem conditional_iff (A : Type) (blake3 : List UInt8 → List UInt8) :
    (∀ (files : StaticFiles) (fs : Tree) (conn : Conn A) (r : Reading), files.reading fs conn = some r →
      (conn.FollowsRule (files.call blake3 fs conn).1 (files.call blake3 fs conn.unconditional).1 ↔
        (conn.Has (some (asBytes (etagValue blake3 r.served.contents))) →
          conn.SendsAlone (etagValue blake3 r.served.contents)))) ∧
    (∀ (files : StaticFiles) (fs : Tree) (conn : Conn A), files.reading fs conn = none →
      files.call blake3 fs conn = (conn, none)) ∧
    (∀ conn : Conn A, conn.status = statusOk →
      (conn.FollowsRule (ETag.call blake3 conn) (ETag.call blake3 conn.unconditional) ↔
        if conn.method = .get ∨ conn.method = .head then
          conn.Has (ETag.carried blake3 conn) →
            conn.SendsAlone (etagValue blake3 conn.respBody) ∧ conn.respBody ≠ []
        else ¬(conn.SendsAlone (etagValue blake3 conn.respBody) ∧ conn.respBody ≠ []))) ∧
    ∀ conn : Conn A, conn.status ≠ statusOk → ETag.call blake3 conn = conn := by
  refine ⟨fun files fs conn r hreading => static_followsRule_iff hreading, fun files fs conn hnone => ?_,
    fun conn hstatus => etag_followsRule_iff hstatus, fun conn hstatus => if_pos (.inl hstatus)⟩
  rw [call_eq, hnone]

/-- A POST whose handler answered it, from a client that has this answer already. -/
def postAgain (blake3 : List UInt8 → List UInt8) : Conn Unit :=
  { Conn.new .post { path := "/orders", query := none } with
    headers := [("if-none-match", [asBytes (etagValue blake3 (asBytes "done"))])], respBody := asBytes "done" }

/-- The answer is taken from it. -/
theorem postAgain_emptied : ¬ ∀ (blake3 : List UInt8 → List UInt8) (conn : Conn Unit), conn.status = statusOk →
    conn.FollowsRule (ETag.call blake3 conn) (ETag.call blake3 conn.unconditional) := by
  intro h
  have hnot := (etag_followsRule_iff rfl).mp
    (h (fun _ => List.replicate 32 0) (postAgain fun _ => List.replicate 32 0) rfl)
  rw [if_neg (by decide)] at hnot
  exact hnot ⟨by decide +kernel, by decide +kernel⟩

end Mahalo
