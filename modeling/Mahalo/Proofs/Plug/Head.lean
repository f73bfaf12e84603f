/-
An answer to HEAD is the answer to GET without its body.

What the plug for static files reads does not depend on which of the two methods a request
has, nor do the status and the fields of its answer, which name the length of what was read.
So the serializer writes one head for both, and leaves the body of GET out behind it.
-/
import Mahalo.Proofs.Endpoint.HttpSerialize
import Mahalo.Proofs.Plug.Reading

namespace Mahalo

open RustStd Lines HttpParse

variable {A : Type}

namespace HeaderMap

theorem containsKey_of_get {map : HeaderMap} {name : String} {value : Bytes} (h : map.get name = some value) :
    map.containsKey name = true := by
  obtain ⟨entry, hentry, _⟩ := Option.bind_eq_some_iff.mp h
  have hname := List.find?_some hentry
  exact List.any_eq_true.mpr ⟨entry, List.mem_of_find?_eq_some hentry, hname⟩

/-- The fields of the map as `http` builds them. -/
def Plain (map : HeaderMap) : Prop := ∀ p ∈ map.iter, p.1.toList.all isTokenChar ∧ Unbroken p.2

theorem Plain.insert {map : HeaderMap} (h : map.Plain) (name : String) (hname : name.toList.all isTokenChar)
    {value : Bytes} (hvalue : Unbroken value) : (map.insert name value).Plain := by
  induction map with
  | nil =>
    intro p hp
    obtain rfl : p = (name, value) := by simpa [HeaderMap.insert, iter] using hp
    exact ⟨hname, hvalue⟩
  | cons entry rest ih =>
    obtain ⟨n, values⟩ := entry
    have hfirst : ∀ v ∈ values, n.toList.all isTokenChar ∧ Unbroken v := fun v hv => h (n, v) (by simp [iter, hv])
    have hrest : Plain rest := fun p hp => h p (by rw [iter, List.flatMap_cons]; exact List.mem_append_right _ hp)
    intro p hp
    unfold HeaderMap.insert at hp
    split at hp
    · rename_i hn
      rw [iter, List.flatMap_cons, List.mem_append] at hp
      rcases hp with hp | hp
      · obtain rfl : p = (n, value) := by simpa using hp
        exact ⟨hn ▸ hname, hvalue⟩
      · exact hrest p hp
    · rw [iter, List.flatMap_cons, List.mem_append] at hp
      rcases hp with hp | hp
      · obtain ⟨v, hv, rfl⟩ := List.mem_map.mp hp
        exact hfirst v hv
      · exact ih hrest p hp

theorem unbroken_of_headerValue {text : String} {value : Bytes} (h : headerValue text = some value) :
    Unbroken value := by
  unfold headerValue at h
  split at h
  · rename_i hall
    obtain rfl := Option.some.inj h
    intro b hb
    have hb := List.all_eq_true.mp hall b hb
    constructor
    · rintro rfl
      exact absurd hb (by decide)
    · rintro rfl
      exact absurd hb (by decide)
  · simp at h

theorem Plain.put {map : HeaderMap} (h : map.Plain) (name : String) (hname : name.toList.all isTokenChar)
    (value : String) : (map.put name value).Plain := by
  unfold HeaderMap.put
  cases hvalue : headerValue value with
  | none => exact h
  | some v => exact h.insert name hname (unbroken_of_headerValue hvalue)

end HeaderMap

namespace StaticFiles

variable {blake3 : List UInt8 → List UInt8}

/-! ### The fields -/

theorem mimeFromExtension_unbroken (ext : String) : Unbroken (asBytes (mimeFromExtension ext)) := by
  unfold mimeFromExtension
  split <;> decide

theorem fieldsOf_plain {files : StaticFiles} {r : Reading} {map : HeaderMap} (h : map.Plain)
    (hmime : Unbroken (asBytes r.mime)) (hcache : Unbroken files.cacheControl) :
    (fieldsOf blake3 files r map).Plain := by
  have htag := h.put "etag" (by decide) (etagValue blake3 r.served.contents)
  unfold fieldsOf
  cases r.variant with
  | some v =>
    have hcoding := htag.put "content-encoding" (by decide) v.encoding
    have hvary := hcoding.put "vary" (by decide) "accept-encoding"
    have hlength := hvary.put "content-length" (by decide) (toString r.served.contents.length)
    have htype := hlength.insert "content-type" (by decide) hmime
    exact htype.insert "cache-control" (by decide) hcache
  | none =>
    have hlength := htag.put "content-length" (by decide) (toString r.served.contents.length)
    have htype := hlength.insert "content-type" (by decide) hmime
    have hplain := htype.insert "cache-control" (by decide) hcache
    dsimp only
    split
    · exact hplain.put "vary" (by decide) _
    · exact hplain

theorem headerValue_toString (n : Nat) : headerValue (toString n) = some (asBytes (toString n)) := by
  unfold headerValue
  rw [if_pos]
  rw [asBytes_toString, List.all_eq_true]
  intro b hb
  have hdigit := writeDecimal_digits n b hb
  simp only [isDigit, Bool.and_eq_true, decide_eq_true_eq, UInt8.le_iff_toNat_le] at hdigit
  have hlow : 32 ≤ b := UInt8.le_iff_toNat_le.mpr (Nat.le_trans (by decide) hdigit.1)
  have hne : b ≠ 127 := by
    rintro rfl
    exact absurd hdigit.2 (by decide)
  simp [hlow, hne]

theorem get_length (blake3 : List UInt8 → List UInt8) (files : StaticFiles) (r : Reading) (map : HeaderMap) :
    (fieldsOf blake3 files r map).get "content-length" = some (asBytes (toString r.served.contents.length)) := by
  have hwritable := headerValue_toString r.served.contents.length
  unfold fieldsOf
  generalize toString r.served.contents.length = text at hwritable ⊢
  have hput := fun map : HeaderMap => map.get_put hwritable "content-length"
  cases r.variant with
  | some v => simp [HeaderMap.get_insert, hput]
  | none =>
    dsimp only
    split <;> simp [HeaderMap.get_put_ne, HeaderMap.get_insert, hput]

/-! ### What is sent -/

/-- What stands before the blank line of a response with these fields. -/
def block (r : Rendering) (date : Bytes) (status : Nat) (map : HeaderMap) (keepAlive : Bool) : Bytes :=
  writeStatusLine r status ++ writeHeaders map ++
    (if keepAlive then asBytes "connection: keep-alive\r\n" else asBytes "connection: close\r\n") ++ date ++
    asBytes "server: mahalo"

/-- The last line's end, and the blank line. -/
def blankLine : Bytes := asBytes "\r\n\r\n"

theorem serialize_eq (r : Rendering) (date : Bytes) {conn : Conn A} (keepAlive : Bool)
    (hlength : conn.respHeaders.containsKey "content-length" = true) :
    serializeResponseInto r date conn keepAlive = block r date conn.status conn.respHeaders keepAlive ++ blankLine ++
      (if conn.method ≠ .head then conn.respBody else []) := by
  have hserver : serverHeader ++ asBytes "\r\n" = asBytes "server: mahalo" ++ blankLine := by decide
  unfold serializeResponseInto block
  rw [if_pos hlength]
  simp only [List.append_assoc, List.append_nil]
  rw [← List.append_assoc serverHeader, hserver, List.append_assoc]

/-- What a client has left behind the status line, the fields and the blank line. -/
def behindBlank (bytes : Bytes) : Option Bytes := do
  let (_, rest) ← takeLine bytes
  let (_, rest) ← takeFields rest
  return rest

theorem behindBlank_response {r : Rendering} (hr : r.PlainReasons) {conn : Conn A} {date : Bytes}
    (h : PlainHead conn date) (keepAlive : Bool) :
    behindBlank (serializeResponseInto r date conn keepAlive)
      = some (if conn.method ≠ .head then conn.respBody else []) := by
  obtain ⟨line, dateValue, hstatus, hdate, hbytes⟩ := h.response_eq hr keepAlive
  rw [hbytes, behindBlank, takeLine_line hstatus.unbroken]
  simp only [Option.bind_eq_bind, Option.bind_some, takeFields_fields (h.writable _ keepAlive hdate)]
  rfl

/-- An answer to HEAD beside one to GET with the same head. -/
structure HeadOf (r : Rendering) (date : Bytes) (keepAlive : Bool) (head get : Conn A) (length : Nat) : Prop where
  cut : ∃ front, serializeResponseInto r date head keepAlive = front ++ blankLine ∧
    serializeResponseInto r date get keepAlive = front ++ blankLine ++ get.respBody
  lengths : head.respHeaders.get "content-length" = some (asBytes (toString length)) ∧
    get.respHeaders.get "content-length" = some (asBytes (toString length))

theorem headOf_answers (files : StaticFiles) (conn : Conn A) (re : Reading) (r : Rendering) (date : Bytes)
    (keepAlive : Bool) :
    HeadOf r date keepAlive (answer blake3 files { conn with method := .head } re)
      (answer blake3 files { conn with method := .get } re) re.served.contents.length := by
  obtain ⟨hfields, hmethod, hhead⟩ := answer_cases blake3 files { conn with method := .head } re
  obtain ⟨hfields', hmethod', hget⟩ := answer_cases blake3 files { conn with method := .get } re
  have hlength := get_length blake3 files re conn.respHeaders
  have hstatus : (answer blake3 files { conn with method := .head } re).status =
      (answer blake3 files { conn with method := .get } re).status := by
    have hsame : (checkEtag blake3 { conn with method := .head } re.served.contents).2 =
        (checkEtag blake3 { conn with method := .get } re.served.contents).2 := rfl
    rw [hsame] at hhead
    split at hget
    · rename_i hmatch
      rw [if_pos hmatch] at hhead
      rw [hhead.1, hget.1]
    · rename_i hmatch
      rw [if_neg hmatch] at hhead
      rw [hhead.1, hget.1]
  have hkey : (fieldsOf blake3 files re conn.respHeaders).containsKey "content-length" = true :=
    HeaderMap.containsKey_of_get hlength
  refine ⟨⟨block r date (answer blake3 files { conn with method := .get } re).status
    (fieldsOf blake3 files re conn.respHeaders) keepAlive, ?_, ?_⟩, ?_, ?_⟩
  · rw [serialize_eq r date keepAlive (by rw [hfields]; exact hkey), hmethod, hfields, hstatus]
    simp
  · rw [serialize_eq r date keepAlive (by rw [hfields']; exact hkey), hmethod', hfields']
    simp
  · rw [hfields]
    exact hlength
  · rw [hfields']
    exact hlength

/-- Behind the blank line of an answer stands its body, and nothing of an answer to HEAD. -/
theorem behindBlank_answer {r : Rendering} (hr : r.PlainReasons) {files : StaticFiles} {conn : Conn A}
    {re : Reading} (hplain : conn.respHeaders.Plain) (hmime : Unbroken (asBytes re.mime))
    (hcache : Unbroken files.cacheControl) {date : Bytes}
    (hdate : ∃ value, Unbroken value ∧ date = writeField (asBytes "date", value)) (keepAlive : Bool) :
    behindBlank (serializeResponseInto r date (answer blake3 files conn re) keepAlive)
      = some (if conn.method ≠ .head then (answer blake3 files conn re).respBody else []) := by
  obtain ⟨hfields, hmethod, hstatus⟩ := answer_cases blake3 files conn re
  have hfieldsPlain : (fieldsOf blake3 files re conn.respHeaders).Plain := fieldsOf_plain hplain hmime hcache
  have hcode : 100 ≤ (answer blake3 files conn re).status ∧ (answer blake3 files conn re).status ≤ 999 := by
    split at hstatus
    · rw [hstatus.1]
      decide
    · rw [hstatus.1]
      decide
  rw [← hfields] at hfieldsPlain
  rw [behindBlank_response hr ⟨hcode, fun p hp => (hfieldsPlain p hp).1, fun p hp => (hfieldsPlain p hp).2, hdate⟩,
    hmethod]

/-- Two requests that differ in the method alone, one HEAD and one GET. -/
structure HeadAnnounces (blake3 : List UInt8 → List UInt8) (files : StaticFiles) (fs : FileTree.Tree) (conn : Conn A)
    (r : Rendering) (date : Bytes) (keepAlive : Bool) (head get fresh : Conn A × Option Served) : Prop where
  decision : head.2 = get.2
  passed : head.2 = none → head.1 = { conn with method := .head } ∧ get.1 = { conn with method := .get }
  served : ∀ served, head.2 = some served → HeadOf r date keepAlive head.1 get.1 served.contents.length ∧
    fresh.1.status = statusOk ∧ fresh.1.respBody = served.contents
  blank : r.PlainReasons → conn.respHeaders.Plain → Unbroken files.cacheControl →
    (∃ value, Unbroken value ∧ date = writeField (asBytes "date", value)) → head.2.isSome = true →
    behindBlank (serializeResponseInto r date head.1 keepAlive) = some [] ∧
      behindBlank (serializeResponseInto r date get.1 keepAlive) = some get.1.respBody

/--
**HEAD announces exactly what GET sends.**  The answer to GET that is compared with the length is
the one to a client that has nothing yet.
-/
theorem head_announces_get (blake3 : List UInt8 → List UInt8) (files : StaticFiles) (fs : FileTree.Tree)
    (conn : Conn A) (r : Rendering) (date : Bytes) (keepAlive : Bool) :
    HeadAnnounces blake3 files fs conn r date keepAlive
      (files.call blake3 fs { conn with method := .head })
      (files.call blake3 fs { conn with method := .get })
      (files.call blake3 fs { conn with method := .get, headers := conn.headers.without "if-none-match" }) := by
  have haccept : acceptEncoding { conn with method := .get, headers := conn.headers.without "if-none-match" }
      = acceptEncoding { conn with method := .head } := by
    have hget : (conn.headers.without "if-none-match").get "accept-encoding" = conn.headers.get "accept-encoding" := by
      rw [HeaderMap.get_without, if_neg (by decide)]
    unfold acceptEncoding
    rw [hget]
  have hget : files.reading fs { conn with method := .get } = files.reading fs { conn with method := .head } :=
    reading_congr rfl (by simp) rfl
  have hfresh : files.reading fs { conn with method := .get, headers := conn.headers.without "if-none-match" }
      = files.reading fs { conn with method := .head } :=
    reading_congr rfl (by simp) haccept
  rw [call_eq, call_eq, call_eq, hget, hfresh]
  cases hreading : files.reading fs { conn with method := .head } with
  | none => exact ⟨rfl, fun _ => ⟨rfl, rfl⟩, by simp, by simp⟩
  | some re =>
    obtain ⟨path, c, d, _, hmime, _⟩ := reading_iff.mp hreading
    refine ⟨rfl, by simp, ?_, fun hr hplain hcache hdate _ => ?_⟩
    · intro served hserved
      obtain rfl := Option.some.inj hserved
      refine ⟨headOf_answers files conn re r date keepAlive, ?_⟩
      obtain ⟨_, _, hstatus⟩ := answer_cases blake3 files
        { conn with method := .get, headers := conn.headers.without "if-none-match" } re
      have hnone : (checkEtag blake3 { conn with method := .get, headers := conn.headers.without "if-none-match" }
          re.served.contents).2 = false := by
        simp [checkEtag, HeaderMap.get_without]
      rw [hnone, if_neg (by simp)] at hstatus
      exact ⟨hstatus.1, hstatus.2⟩
    · have hunbroken : Unbroken (asBytes re.mime) := hmime ▸ mimeFromExtension_unbroken _
      have hhead := @behindBlank_answer A blake3 r hr files { conn with method := .head } re hplain hunbroken hcache
        date hdate keepAlive
      have hget := @behindBlank_answer A blake3 r hr files { conn with method := .get } re hplain hunbroken hcache
        date hdate keepAlive
      exact ⟨hhead, hget⟩

/-- A directory with one page in it. -/
def pageTree : FileTree.Tree :=
  .ofTable [([asBytes "srv"], .dir), ([asBytes "srv", asBytes "page.txt"], .file (some (asBytes "hello")))]
    40 (by decide +kernel)

def pageFiles : StaticFiles := .new "static" (pathOf "/srv".toList)

def pageRequest : Conn Unit := Conn.new .get { path := "/static/page.txt", query := none }

/-- A hash that is the same for everything. -/
def zeroHash (_ : List UInt8) : List UInt8 := List.replicate 32 0

/-- The page is served: its length is in both heads, and behind them the page for GET and nothing for HEAD. -/
theorem head_announces_get_page :
    let head := pageFiles.call zeroHash pageTree { pageRequest with method := .head }
    let get := pageFiles.call zeroHash pageTree { pageRequest with method := .get }
    HeadOf teapotRendering nineDate true head.1 get.1 5 ∧
      behindBlank (serializeResponseInto teapotRendering nineDate head.1 true) = some [] ∧
      behindBlank (serializeResponseInto teapotRendering nineDate get.1 true) = some (asBytes "hello") := by
  intro head get
  have hannounces : HeadAnnounces zeroHash pageFiles pageTree pageRequest teapotRendering nineDate true head get _ :=
    head_announces_get zeroHash pageFiles pageTree pageRequest teapotRendering nineDate true
  have hserved : head.2 = some { path := .ofLocation [asBytes "srv", asBytes "page.txt"], contents := asBytes "hello" } := by
    decide +kernel
  have hbody : get.1.respBody = asBytes "hello" := by decide +kernel
  have hreasons : teapotRendering.PlainReasons := by
    intro code reason hreason
    rw [teapotRendering_reason hreason]
    decide
  have hdate : ∃ value, Unbroken value ∧ nineDate = writeField (asBytes "date", value) :=
    ⟨asBytes "Fri, 06 Mar 2026 09:00:00 GMT", by decide, by decide⟩
  obtain ⟨hhead, hget⟩ := hannounces.blank hreasons (by intro p hp; cases hp) (by decide) hdate (by rw [hserved]; rfl)
  rw [hbody] at hget
  exact ⟨(hannounces.served _ hserved).1, hhead, hget⟩

end StaticFiles

end Mahalo
