/-
What the plug for static files reads, and what it puts on an answer.

What is read for a request depends on the path, on the codings that the client names and on
whether the method is one of the two that the plug answers, and on nothing else of the `Conn`
(`reading_congr`).  The status and the header fields of an answer come from what was read
alone, before it is settled whether a body goes with them (`answerHead_eq`).
-/
import Mahalo.Proofs.Plug.StaticFiles

namespace Mahalo

open FileTree RustStd

namespace HeaderMap

/-- A map without the fields of a name. -/
def without (map : HeaderMap) (name : String) : HeaderMap := map.filter fun (n, _) => n != name

theorem get_without (map : HeaderMap) (name other : String) :
    (map.without name).get other = if name = other then none else map.get other := by
  induction map with
  | nil => simp [without, get]
  | cons entry rest ih =>
    obtain ⟨n, values⟩ := entry
    unfold without at ih ⊢
    by_cases hn : n = name
    · subst hn
      rw [List.filter_cons_of_neg (by simp), ih, get_cons]
      split <;> rfl
    · rw [List.filter_cons_of_pos (by simpa using hn), get_cons, get_cons, ih]
      by_cases hother : n = other
      · have hne : name ≠ other := fun hname => hn (hother.trans hname.symm)
        rw [if_pos hother, if_pos hother, if_neg hne]
      · rw [if_neg hother, if_neg hother]

end HeaderMap

/-- A field put on a map, if its value is one that a header can have. -/
def HeaderMap.put (map : HeaderMap) (key value : String) : HeaderMap :=
  match headerValue value with
  | some v => map.insert key v
  | none => map

theorem Conn.putRespHeader_eq {A : Type} (conn : Conn A) (key value : String) :
    conn.putRespHeader key value = { conn with respHeaders := conn.respHeaders.put key value } := by
  unfold Conn.putRespHeader HeaderMap.put
  cases headerValue value <;> rfl

theorem HeaderMap.get_put_ne {map : HeaderMap} {key value name : String} (h : key ≠ name) :
    (map.put key value).get name = map.get name := by
  unfold HeaderMap.put
  cases headerValue value with
  | none => rfl
  | some v => simp [get_insert, h]

theorem HeaderMap.get_put {value : String} {v : List UInt8} (h : headerValue value = some v) (map : HeaderMap)
    (key : String) : (map.put key value).get key = some v := by
  rw [HeaderMap.put, h, get_insert, if_pos rfl]

namespace StaticFiles

variable {A : Type} {blake3 : List UInt8 → List UInt8}

/-- The type of what was asked for, the coding of what was read for it, and what that was. -/
structure Reading where
  mime : String
  variant : Option Variant
  served : Served
  deriving DecidableEq, Repr

def reading (files : StaticFiles) (fs : Tree) (conn : Conn A) : Option Reading :=
  match files.filePath conn with
  | none => none
  | some filePath =>
      match files.canonical fs filePath with
      | none => none
      | some c =>
          let mime := mimeFromExtension (extensionText filePath.fileName)
          match (if isCompressible mime then findVariant fs (acceptEncoding conn) c variants else none) with
          | some (v, served) => some { mime, variant := some v, served }
          | none => (fs.read (.ofLocation c)).map fun contents =>
              { mime, variant := none, served := { path := .ofLocation c, contents } }

/-- The fields that an answer gets. -/
def fieldsOf (blake3 : List UInt8 → List UInt8) (files : StaticFiles) (r : Reading) (map : HeaderMap) : HeaderMap :=
  let map := map.put "etag" (etagValue blake3 r.served.contents)
  let length := toString r.served.contents.length
  match r.variant with
  | some v =>
      ((((map.put "content-encoding" v.encoding).put "vary" "accept-encoding").put "content-length" length).insert
        "content-type" (asBytes r.mime)).insert "cache-control" files.cacheControl
  | none =>
      let map := ((map.put "content-length" length).insert "content-type" (asBytes r.mime)).insert "cache-control"
        files.cacheControl
      if isCompressible r.mime then map.put "vary" "accept-encoding" else map

/-- The answer before it is settled whether a body goes with it. -/
def answerHead (blake3 : List UInt8 → List UInt8) (files : StaticFiles) (conn : Conn A) (r : Reading) : Conn A :=
  { conn with status := statusOk, respHeaders := fieldsOf blake3 files r conn.respHeaders }

def answer (blake3 : List UInt8 → List UInt8) (files : StaticFiles) (conn : Conn A) (r : Reading) : Conn A :=
  finish (answerHead blake3 files conn r) (checkEtag blake3 conn r.served.contents).2 r.served.contents

theorem serveVariant_eq (files : StaticFiles) (conn : Conn A) (mime : String) (v : Variant) (served : Served) :
    files.serveVariant blake3 conn mime v served.contents
      = answer blake3 files conn { mime, variant := some v, served } := by
  simp only [serveVariant, checkEtag, answer, answerHead, fieldsOf, putTypeAndCache, Conn.putRespHeader_eq,
    Conn.putStatus]

theorem serveFile_eq (files : StaticFiles) (conn : Conn A) (mime : String) (served : Served) :
    files.serveFile blake3 conn mime served.contents
      = answer blake3 files conn { mime, variant := none, served } := by
  simp only [serveFile, checkEtag, answer, answerHead, fieldsOf, putTypeAndCache, Conn.putRespHeader_eq,
    Conn.putStatus]
  split <;> rfl

/-- **A request is passed through, or answered from what was read.** -/
theorem call_eq (files : StaticFiles) (fs : Tree) (conn : Conn A) : files.call blake3 fs conn =
    match files.reading fs conn with
    | none => (conn, none)
    | some r => (answer blake3 files conn r, some r.served) := by
  unfold call reading
  cases files.filePath conn with
  | none => rfl
  | some filePath =>
    dsimp only
    cases files.canonical fs filePath with
    | none => rfl
    | some c =>
      dsimp only
      generalize (if isCompressible (mimeFromExtension (extensionText filePath.fileName)) then
        findVariant fs (acceptEncoding conn) c variants else none) = variant
      cases variant with
      | some found =>
        dsimp only
        rw [serveVariant_eq]
      | none =>
        dsimp only
        cases fs.read (.ofLocation c) with
        | none => rfl
        | some contents =>
          simp only [Option.map_some]
          rw [← serveFile_eq]

/-- Two requests for one path, with the same codings and both to be answered, are read alike. -/
theorem reading_congr {files : StaticFiles} {fs : Tree} {conn conn' : Conn A} (huri : conn'.uri = conn.uri)
    (hmethod : (conn'.method = .get ∨ conn'.method = .head) ↔ (conn.method = .get ∨ conn.method = .head))
    (haccept : acceptEncoding conn' = acceptEncoding conn) :
    files.reading fs conn' = files.reading fs conn := by
  have hpath : files.filePath conn' = files.filePath conn := by
    unfold filePath
    have hnot : (conn'.method ≠ .get ∧ conn'.method ≠ .head) ↔ (conn.method ≠ .get ∧ conn.method ≠ .head) := by
      tauto
    simp only [huri, hnot]
  unfold reading
  simp only [hpath, haccept]

/-- The coding of what is read for a file of a type: that of the first variant offered, if any. -/
def offered (fs : Tree) (conn : Conn A) (mime : String) (c : Location) : Option Variant :=
  if isCompressible mime then variants.find? (offers fs (acceptEncoding conn) c) else none

/-- Where the contents for a coding are. -/
def placeOf (c : Location) : Option Variant → Path
  | some v => compressedPath c v
  | none => .ofLocation c

theorem reading_of_isFor {files : StaticFiles} {fs : Tree} {conn : Conn A} {path : Path} {c d : Location}
    (h : files.IsFor fs conn path c d) :
    let mime := mimeFromExtension (extensionText path.fileName)
    let variant := offered fs conn mime c
    files.reading fs conn = (fs.read (placeOf c variant)).map fun contents =>
      { mime, variant, served := { path := placeOf c variant, contents } } := by
  obtain ⟨hpath, hcanonical⟩ := isFor_iff.mp ⟨d, h⟩
  unfold reading
  rw [hpath]
  simp only [hcanonical, findVariant_eq, offered]
  by_cases hcomp : isCompressible (mimeFromExtension (extensionText path.fileName)) = true
  · simp only [hcomp, if_true]
    cases hfirst : variants.find? (offers fs (acceptEncoding conn) c) with
    | none => rfl
    | some v =>
      have hoffers := List.find?_some hfirst
      obtain ⟨contents, hread⟩ := Option.isSome_iff_exists.mp (Bool.and_eq_true_iff.mp hoffers).2
      simp [placeOf, hread]
  · simp only [if_neg hcomp]
    rfl

/-- What is read, in terms of the file that the request is for. -/
theorem reading_iff {files : StaticFiles} {fs : Tree} {conn : Conn A} {r : Reading} :
    files.reading fs conn = some r ↔ ∃ path c d, files.IsFor fs conn path c d ∧
      r.mime = mimeFromExtension (extensionText path.fileName) ∧ r.variant = offered fs conn r.mime c ∧
      r.served.path = placeOf c r.variant ∧ fs.read r.served.path = some r.served.contents := by
  constructor
  · intro h
    obtain ⟨path, c, d, hfor⟩ : ∃ path c d, files.IsFor fs conn path c d := by
      cases hpath : files.filePath conn with
      | none => simp [reading, hpath] at h
      | some path =>
        cases hcanonical : files.canonical fs path with
        | none => simp [reading, hpath, hcanonical] at h
        | some c =>
          obtain ⟨d, hfor⟩ := isFor_iff.mpr ⟨hpath, hcanonical⟩
          exact ⟨path, c, d, hfor⟩
    rw [reading_of_isFor hfor, Option.map_eq_some_iff] at h
    obtain ⟨contents, hread, rfl⟩ := h
    exact ⟨path, c, d, hfor, rfl, rfl, rfl, hread⟩
  · rintro ⟨path, c, d, hfor, hmime, hvariant, hplace, hread⟩
    obtain ⟨mime, variant, place, contents⟩ := r
    simp only at hmime hvariant hplace hread
    subst hmime hvariant hplace
    rw [reading_of_isFor hfor, hread]
    rfl

/-- What an answer is, by whether the client has it already and whether the method is HEAD. -/
theorem answer_cases (blake3 : List UInt8 → List UInt8) (files : StaticFiles) (conn : Conn A) (r : Reading) :
    (answer blake3 files conn r).respHeaders = fieldsOf blake3 files r conn.respHeaders ∧
    (answer blake3 files conn r).method = conn.method ∧
    if (checkEtag blake3 conn r.served.contents).2 then
      (answer blake3 files conn r).status = statusNotModified ∧ (answer blake3 files conn r).respBody = []
    else (answer blake3 files conn r).status = statusOk ∧ (answer blake3 files conn r).respBody =
      if conn.method ≠ .head then r.served.contents else conn.respBody := by
  unfold answer finish
  cases (checkEtag blake3 conn r.served.contents).2 with
  | true => exact ⟨rfl, rfl, rfl, rfl⟩
  | false =>
    have hmethod : (answerHead blake3 files conn r).method = conn.method := rfl
    simp only [Bool.false_eq_true, if_false, hmethod]
    split <;> exact ⟨rfl, rfl, rfl, rfl⟩

theorem get_tag (files : StaticFiles) (r : Reading) (map : HeaderMap) :
    (fieldsOf blake3 files r map).get "etag" = some (asBytes (etagValue blake3 r.served.contents)) := by
  have hwritable : headerValue (etagValue blake3 r.served.contents) = some _ := headerValue_etagValue _
  have hput := fun map : HeaderMap => map.get_put hwritable "etag"
  unfold fieldsOf
  cases r.variant with
  | some v => simp [HeaderMap.get_put_ne, HeaderMap.get_insert, hput]
  | none =>
    dsimp only
    split <;> simp [HeaderMap.get_put_ne, HeaderMap.get_insert, hput]

end StaticFiles

end Mahalo
