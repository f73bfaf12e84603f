/-
Which codings the plug for static files answers with.

The plug looks for the name of a coding anywhere in the value of Accept-Encoding, so it takes
for accepted what the list refuses with a weight of zero, and what is only a part of another
name.  It answers with codings that the client accepts exactly where the first variant that is
found in that way has one (`coding_accepted_iff`); whatever lies on the disk, it does so for the
values in which no coding's name stands that the list does not accept.
-/
import Mahalo.Lib.FieldLists
import Mahalo.Proofs.Plug.Reading
import Mathlib.Data.List.Find

namespace Mahalo.StaticFiles

open FileTree RustStd FieldLists

variable {A : Type} {blake3 : List UInt8 → List UInt8}

/-- An answer's coding is one that the client accepts. -/
def CodingAccepted (blake3 : List UInt8 → List UInt8) (files : StaticFiles) (fs : Tree) (conn : Conn A) : Prop :=
  ∀ answer served coding, files.call blake3 fs conn = (answer, some served) →
    answer.respHeaders.get "content-encoding" = some coding →
    accepts (asBytes (acceptEncoding conn)) coding = true

/-- The coding of an answer with the contents of a variant, or of the file as it is. -/
def codingOf (conn : Conn A) : Option Variant → Option (List UInt8)
  | some v => some (asBytes v.encoding)
  | none => conn.respHeaders.get "content-encoding"

/-- The client accepts the coding of the first variant that it seems to name and that can be read; where
there is none, it accepts the coding that the `Conn` came with. -/
def FirstAccepted (files : StaticFiles) (fs : Tree) (conn : Conn A) : Prop :=
  ∀ path c d variant coding, files.IsFor fs conn path c d →
    offered fs conn (mimeFromExtension (extensionText path.fileName)) c = variant →
    (fs.read (placeOf c variant)).isSome = true → codingOf conn variant = some coding →
    accepts (asBytes (acceptEncoding conn)) coding = true

/-- The client accepts every coding whose name stands anywhere in the value. -/
def NamesAccepted (conn : Conn A) : Prop :=
  ∀ v ∈ variants, contains (acceptEncoding conn).toList v.token.toList = true →
    accepts (asBytes (acceptEncoding conn)) (asBytes v.encoding) = true

theorem finish_respHeaders (conn : Conn A) (etagMatch : Bool) (contents : List UInt8) :
    (finish conn etagMatch contents).respHeaders = conn.respHeaders := by
  unfold finish
  split
  · rfl
  · split <;> rfl

theorem mem_variants_of_offered {fs : Tree} {conn : Conn A} {mime : String} {c : Location} {v : Variant}
    (h : offered fs conn mime c = some v) :
    v ∈ variants ∧ contains (acceptEncoding conn).toList v.token.toList = true := by
  unfold offered at h
  split at h
  · have hoffers := List.find?_some h
    exact ⟨List.mem_of_find?_eq_some h, (Bool.and_eq_true_iff.mp hoffers).1⟩
  · simp at h

theorem get_coding (files : StaticFiles) (conn : Conn A) {r : Reading} (hv : ∀ v ∈ r.variant, v ∈ variants) :
    (answer blake3 files conn r).respHeaders.get "content-encoding" = codingOf conn r.variant := by
  have hwritable : ∀ v ∈ variants, headerValue v.encoding = some (asBytes v.encoding) := by decide
  rw [answer, finish_respHeaders, answerHead]
  cases hr : r.variant with
  | none =>
    simp only [fieldsOf, hr, codingOf]
    split <;> simp [HeaderMap.get_put_ne, HeaderMap.get_insert]
  | some v =>
    have hput := fun map : HeaderMap => map.get_put (hwritable v (hv v hr)) "content-encoding"
    simp [fieldsOf, hr, codingOf, HeaderMap.get_put_ne, HeaderMap.get_insert, hput]

theorem codingAccepted_iff_first (files : StaticFiles) (fs : Tree) (conn : Conn A) :
    CodingAccepted blake3 files fs conn ↔ FirstAccepted files fs conn := by
  constructor
  · intro h path c d variant coding hfor hvariant hreadable hcoding
    subst hvariant
    obtain ⟨contents, hread⟩ := Option.isSome_iff_exists.mp hreadable
    have hreading := reading_of_isFor hfor
    dsimp only at hreading
    rw [hread, Option.map_some] at hreading
    refine h _ _ coding (by rw [call_eq, hreading]) ?_
    rw [get_coding files conn fun v hv => (mem_variants_of_offered hv).1]
    exact hcoding
  · intro h answer' served coding hcall hcoding
    rw [call_eq] at hcall
    cases hreading : files.reading fs conn with
    | none => simp [hreading] at hcall
    | some r =>
      rw [hreading] at hcall
      obtain ⟨rfl, _⟩ := Prod.mk.inj hcall
      obtain ⟨path, c, d, hfor, hmime, hvariant, hplace, hread⟩ := reading_iff.mp hreading
      have hv : ∀ v ∈ r.variant, v ∈ variants := by
        intro v hv
        rw [hvariant] at hv
        exact (mem_variants_of_offered hv).1
      rw [get_coding files conn hv] at hcoding
      rw [hplace] at hread
      rw [hvariant, hmime] at hread hcoding
      exact h path c d _ coding hfor rfl (Option.isSome_iff_exists.mpr ⟨_, hread⟩) hcoding

/-! ### Any set of variants -/

/-- A script, and beside it the variant with this suffix alone. -/
def oneVariant (v : Variant) : List (Location × Entry) :=
  [([asBytes "srv"], .dir), ([asBytes "srv", asBytes "app.js"], .file (some (asBytes "run()"))),
    ([asBytes "srv", asBytes ("app.js" ++ v.suffix)], .file (some (asBytes "r")))]

def variantTree (v : Variant) : Tree :=
  if h : Tree.Tabled (oneVariant v) then .ofTable _ 40 h else .ofTable [] 40 (by decide)

def variantFiles : StaticFiles := .new "static" (pathOf "/srv".toList)

/-- The client's request for the script. -/
def scriptRequest (A : Type) (headers : HeaderMap) : Conn A :=
  { Conn.new .get { path := "/static/app.js", query := none } with headers }

theorem variantTree_read : ∀ v ∈ variants, ∀ w ∈ variants,
    ((variantTree v).read (compressedPath [asBytes "srv", asBytes "app.js"] w)).isSome = (v == w) := by
  decide +kernel

theorem variantTree_isFor (headers : HeaderMap) {v : Variant} (hv : v ∈ variants) :
    variantFiles.IsFor (variantTree v) (scriptRequest A headers)
      (variantFiles.dir.join (pathOf "app.js".toList)) [asBytes "srv", asBytes "app.js"] [asBytes "srv"] := by
  have hfile : ∀ v ∈ variants,
      (variantTree v).canonicalize (variantFiles.dir.join (pathOf "app.js".toList))
          = some [asBytes "srv", asBytes "app.js"] ∧
        (variantTree v).canonicalize variantFiles.dir = some [asBytes "srv"] ∧
        (variantTree v).entry [asBytes "srv", asBytes "app.js"] = some (.file (some (asBytes "run()"))) := by
    decide +kernel
  obtain ⟨hfile, hdir, hentry⟩ := hfile v hv
  have hpath : "/static/app.js".toList = variantFiles.urlPrefix.toList ++ '/' :: "app.js".toList := by
    decide +kernel
  exact ⟨.inl rfl, ⟨"app.js".toList, hpath, by decide, by decide, rfl⟩, hfile, hdir, by decide, _, hentry⟩

/-- The one variant is offered to a client in whose value its name stands. -/
theorem variantTree_offered (headers : HeaderMap) {v : Variant} (hv : v ∈ variants)
    (hnamed : contains (acceptEncoding (scriptRequest A headers)).toList v.token.toList = true) :
    offered (variantTree v) (scriptRequest A headers) "text/javascript" [asBytes "srv", asBytes "app.js"]
      = some v := by
  have hoffers : ∀ w ∈ variants, offers (variantTree v) (acceptEncoding (scriptRequest A headers))
      [asBytes "srv", asBytes "app.js"] w = (v == w) := by
    intro w hw
    rw [offers, variantTree_read v hv w hw]
    by_cases hsame : v = w
    · rw [← hsame, hnamed, Bool.true_and]
    · rw [beq_false_of_ne hsame, Bool.and_false]
  have hfirst : ∀ v ∈ variants, variants.find? (v == ·) = some v := by decide
  rw [offered, if_pos (by decide), ← hfirst v hv]
  exact List.find?_congr hoffers

/--
**The plug answers with an accepted coding exactly if that of the first variant it finds is one.**
For a client's fields it does so whatever lies on the disk exactly if every coding whose name stands
in the value is accepted.
-/
theorem coding_accepted_iff (blake3 : List UInt8 → List UInt8) (files : StaticFiles) (fs : Tree)
    (conn : Conn A) :
    (CodingAccepted blake3 files fs conn ↔ FirstAccepted files fs conn) ∧
    ((∀ (files' : StaticFiles) (fs' : Tree) (conn' : Conn A), conn'.headers = conn.headers →
        conn'.respHeaders.get "content-encoding" = none → CodingAccepted blake3 files' fs' conn') ↔
      NamesAccepted conn) := by
  refine ⟨codingAccepted_iff_first files fs conn, fun h v hv hnamed => ?_,
    fun h files' fs' conn' hheaders hfresh => ?_⟩
  · have hsame : acceptEncoding (scriptRequest A conn.headers) = acceptEncoding conn := rfl
    have haccepted := h variantFiles (variantTree v) (scriptRequest A conn.headers) rfl rfl
    rw [codingAccepted_iff_first] at haccepted
    have hoffered := variantTree_offered conn.headers hv (hsame ▸ hnamed)
    have hread := variantTree_read v hv v hv
    rw [beq_self_eq_true] at hread
    exact haccepted _ _ _ (some v) _ (variantTree_isFor conn.headers hv) hoffered hread rfl
  · rw [codingAccepted_iff_first]
    intro path c d variant coding hfor hvariant hreadable hcoding
    have hsame : acceptEncoding conn' = acceptEncoding conn := by rw [acceptEncoding, acceptEncoding, hheaders]
    cases variant with
    | none =>
      rw [codingOf, hfresh] at hcoding
      simp at hcoding
    | some v =>
      obtain ⟨hv, hnamed⟩ := mem_variants_of_offered hvariant
      rw [hsame] at hnamed ⊢
      rw [← Option.some.inj hcoding]
      exact h v hv hnamed

/-- A client that refuses Brotli, and no coding is left of its list. -/
def refusing : Conn Unit := scriptRequest Unit [("accept-encoding", [asBytes "br;q=0"])]

/-- It is sent the script in Brotli. -/
theorem refused_coding_sent : ¬ ∀ (files : StaticFiles) (fs : Tree) (conn : Conn Unit)
    (blake3 : List UInt8 → List UInt8), CodingAccepted blake3 files fs conn := by
  intro h
  have haccepted := h variantFiles (variantTree ⟨"br", ".br", "br"⟩) refusing fun _ => []
  rw [codingAccepted_iff_first] at haccepted
  have hcoding := haccepted _ _ _ _ (asBytes "br") (variantTree_isFor _ (by decide))
    (variantTree_offered _ (by decide) (by decide +kernel)) (by decide +kernel) rfl
  exact absurd hcoding (by decide +kernel)

end Mahalo.StaticFiles
