/-
A client that keeps answers with their tags.

It comes back for the same things, over files or pages that change in between, and sends
the tag of what it has.  Either plug, the one for static files and the one that tags
answers, then serves it as if it had asked for everything anew.  That rests on the tags
alone: two answers for one address with the same tag have to be the same.  A hash of the
contents does not see to all of that, since the coding of an answer is no part of it.
-/
import Mahalo.Lib.Revalidation
import Mahalo.Proofs.Plug.Codings
import Mahalo.Proofs.Plug.Conditional

namespace Mahalo

open FileTree RustStd Revalidation

variable {A W : Type} {blake3 : List UInt8 → List UInt8}

/-! ### The client -/

/-- What a client keeps of an answer. -/
structure Stored where
  etag : List UInt8
  coding : Option (List UInt8)
  body : List UInt8
  deriving DecidableEq, Repr

/-- A full answer with a tag is kept. -/
def Stored.of (answer : Conn A) : Option Stored :=
  if answer.status = statusOk then
    (answer.respHeaders.get "etag").map fun etag =>
      { etag, coding := answer.respHeaders.get "content-encoding", body := answer.respBody }
  else none

/-- A request that comes to a plug, and the world as it is then. -/
structure Visit (A W : Type) where
  world : W
  conn : Conn A
  get : conn.method = .get
  /-- nobody before the plug has answered with a 304 -/
  unanswered : conn.status ≠ statusNotModified

/-- The request of a client that has an answer with this tag. -/
def Conn.conditional (conn : Conn A) (etag : List UInt8) : Conn A :=
  { conn with headers := (conn.headers.without "if-none-match").insert "if-none-match" etag }

/-- An answer to a client that has one: a 304, or one that it keeps instead. -/
def newer (answer : Conn A) : Option (Option Stored) :=
  if answer.status = statusNotModified then none else some (Stored.of answer)

/-- A plug as the client sees it. -/
def originOf (plug : W → Conn A → Conn A) : Origin (Visit A W) (List UInt8) Stored where
  full v := Stored.of (plug v.world v.conn.unconditional)
  ask v etag := newer (plug v.world (v.conn.conditional etag))

theorem get_conditional (conn : Conn A) (etag : List UInt8) (name : String) :
    (conn.conditional etag).headers.get name =
      if "if-none-match" = name then some etag else conn.headers.get name := by
  unfold Conn.conditional
  rw [HeaderMap.get_insert, HeaderMap.get_without]
  split <;> rfl

theorem conditional_sendsAlone (conn : Conn A) {etag : List UInt8} {tag : String} :
    (conn.conditional etag).SendsAlone tag ↔ HttpParse.toStr etag = some tag := by
  unfold Conn.SendsAlone
  rw [get_conditional, if_pos rfl, Option.bind_some]

/-- A plug that passes a visit on as it came, or answers it with a tag that it compares with. -/
theorem sound_of_cases {o : Origin (Visit A W) (List UInt8) Stored} (h : ∀ v, (∀ etag, o.ask v etag = some (o.full v)) ∨
    ∃ tag, ∀ etag, o.ask v etag = (if etag = tag then none else some (o.full v)) ∧
      ∃ s, o.full v = some s ∧ s.etag = tag) : o.Sound Stored.etag where
  same := by
    intro v etag hask
    rcases h v with hpassed | ⟨tag, htagged⟩
    · cases (hpassed etag).symm.trans hask
    · obtain ⟨hanswer, s, hfull, htag⟩ := htagged etag
      rw [hanswer] at hask
      split_ifs at hask with hetag
      exact ⟨s, hfull, htag.trans hetag.symm⟩
  other := by
    intro v etag answer hask
    rcases h v with hpassed | ⟨tag, htagged⟩
    · exact (Option.some.inj ((hpassed etag).symm.trans hask)).symm
    · rw [(htagged etag).1] at hask
      split_ifs at hask
      exact (Option.some.inj hask).symm

/-! ### The two plugs -/

namespace StaticFiles

theorem toHex_ascii (hash : List UInt8) : ∀ c ∈ toHex hash, UInt8.ofNat c.toNat < 127 := by
  have hdigit : ∀ n < 16, UInt8.ofNat (Nat.digitChar n).toNat < 127 := by decide
  intro c hc
  obtain ⟨b, _, hb⟩ := List.mem_flatMap.mp hc
  have hlt := b.toNat_lt
  simp only [List.mem_cons, List.not_mem_nil, or_false] at hb
  rcases hb with rfl | rfl
  · exact hdigit _ (by omega)
  · exact hdigit _ (by omega)

/-- A tag is a value that `to_str` takes. -/
theorem toStr_etagValue (contents : List UInt8) :
    HttpParse.toStr (asBytes (etagValue blake3 contents)) = some (etagValue blake3 contents) := by
  unfold HttpParse.toStr
  rw [if_pos, fromUtf8_encode]
  rw [asBytes_etagValue, List.all_append, List.all_append, Bool.and_eq_true, Bool.and_eq_true]
  refine ⟨⟨by decide, List.all_eq_true.mpr fun b hb => ?_⟩, by decide⟩
  obtain ⟨hlow, -, -⟩ := tagText_visible contents b hb
  obtain ⟨c, hc, hcb⟩ := List.mem_flatMap.mp hb
  have hc := List.mem_of_mem_take hc
  obtain rfl : b = UInt8.ofNat c.toNat := by simpa [(toHex_visible _ c hc).1] using hcb
  simp [hlow, toHex_ascii _ c hc]

/-- The tag that a client sends is the tag of the contents. -/
theorem toStr_eq_etagValue {etag contents : List UInt8} :
    HttpParse.toStr etag = some (etagValue blake3 contents) ↔ etag = asBytes (etagValue blake3 contents) := by
  constructor
  · intro h
    exact (HttpParse.asBytes_of_toStr h).symm
  · rintro rfl
    exact toStr_etagValue contents

variable {files : StaticFiles} {fs : Tree} {conn : Conn A}

/-- What is read for a request does not depend on its condition. -/
theorem reading_headers {conn' : Conn A}
    (h : ∀ name, "if-none-match" ≠ name → conn'.headers.get name = conn.headers.get name)
    (huri : conn'.uri = conn.uri) (hmethod : conn'.method = conn.method) :
    files.reading fs conn' = files.reading fs conn := by
  refine reading_congr huri (by rw [hmethod]) ?_
  unfold acceptEncoding
  rw [h _ (by decide)]

theorem reading_conditional (etag : List UInt8) :
    files.reading fs (conn.conditional etag) = files.reading fs conn :=
  reading_headers (fun name h => by rw [get_conditional, if_neg h]) rfl rfl

theorem reading_unconditional : files.reading fs conn.unconditional = files.reading fs conn :=
  reading_headers (fun name h => by rw [get_unconditional, if_neg h]) rfl rfl

theorem checkEtag_conditional {etag contents : List UInt8} :
    (checkEtag blake3 (conn.conditional etag) contents).2 = true ↔ etag = asBytes (etagValue blake3 contents) := by
  rw [← toStr_eq_etagValue, ← conditional_sendsAlone conn]
  unfold checkEtag Conn.SendsAlone
  cases ((conn.conditional etag).headers.get "if-none-match").bind HttpParse.toStr <;> simp

theorem checkEtag_unconditional (conn : Conn A) (contents : List UInt8) :
    (checkEtag blake3 conn.unconditional contents).2 = false := by
  simp [checkEtag, get_unconditional]

section

variable (blake3 files)

/-- What a client keeps of a full answer. -/
theorem stored_answer (conn : Conn A) (r : Reading) (hget : conn.method = .get)
    (h : (checkEtag blake3 conn r.served.contents).2 = false) :
    (answer blake3 files conn r).status = statusOk ∧ Stored.of (answer blake3 files conn r) = some {
      etag := asBytes (etagValue blake3 r.served.contents)
      coding := (fieldsOf blake3 files r conn.respHeaders).get "content-encoding"
      body := r.served.contents } := by
  obtain ⟨hfields, -, hanswer⟩ := answer_cases blake3 files conn r
  rw [h, if_neg Bool.false_ne_true, hget, if_pos (by decide)] at hanswer
  refine ⟨hanswer.1, ?_⟩
  rw [Stored.of, if_pos hanswer.1, hfields, hanswer.2, get_tag]
  rfl

/-- What a client gets that has an answer with this tag. -/
theorem answer_conditional (r : Reading) (hget : conn.method = .get) (etag : List UInt8) :
    let answer' := answer blake3 files (conn.conditional etag) r
    if etag = asBytes (etagValue blake3 r.served.contents) then
      answer'.status = statusNotModified ∧ answer'.respBody = []
    else answer'.status = statusOk ∧ Stored.of answer' = Stored.of (answer blake3 files conn.unconditional r) := by
  dsimp only
  split
  · next htag =>
    obtain ⟨-, -, hanswer⟩ := answer_cases blake3 files (conn.conditional etag) r
    rwa [checkEtag_conditional.mpr htag, if_pos rfl] at hanswer
  · next htag =>
    have hno : (checkEtag blake3 (conn.conditional etag) r.served.contents).2 = false :=
      Bool.not_eq_true _ ▸ fun h => htag (checkEtag_conditional.mp h)
    obtain ⟨hstatus, hstored⟩ := stored_answer blake3 files (conn.conditional etag) r hget hno
    obtain ⟨-, hfull⟩ := stored_answer blake3 files conn.unconditional r hget (checkEtag_unconditional conn _)
    exact ⟨hstatus, hstored.trans hfull.symm⟩

/-- The plug as a client sees it, over files that change between the visits. -/
def origin : Origin (Visit A Tree) (List UInt8) Stored := originOf fun fs conn => (files.call blake3 fs conn).1

end

theorem origin_passed {v : Visit A Tree} (h : files.reading v.world v.conn = none) (etag : List UInt8) :
    (origin blake3 files).ask v etag = some ((origin blake3 files).full v) := by
  dsimp only [origin, originOf]
  rw [call_eq, call_eq, reading_conditional, reading_unconditional, h]
  exact if_neg v.unanswered

theorem origin_served {v : Visit A Tree} {r : Reading} (h : files.reading v.world v.conn = some r) (etag : List UInt8) :
    (origin blake3 files).ask v etag = (if etag = asBytes (etagValue blake3 r.served.contents) then none
      else some ((origin blake3 files).full v)) ∧
    ∃ s, (origin blake3 files).full v = some s ∧ s.etag = asBytes (etagValue blake3 r.served.contents) := by
  dsimp only [origin, originOf]
  rw [call_eq, call_eq, reading_conditional, reading_unconditional, h]
  obtain ⟨-, hfull⟩ := stored_answer blake3 files v.conn.unconditional r v.get (checkEtag_unconditional v.conn _)
  refine ⟨?_, _, hfull, rfl⟩
  have hanswer := answer_conditional blake3 files r v.get etag
  dsimp only at hanswer ⊢
  unfold newer
  by_cases htag : etag = asBytes (etagValue blake3 r.served.contents)
  · rw [if_pos htag] at hanswer ⊢
    rw [if_pos hanswer.1]
  · rw [if_neg htag] at hanswer ⊢
    rw [if_neg (by rw [hanswer.1]; decide), hanswer.2]

theorem origin_sound : (origin blake3 files (A := A)).Sound Stored.etag :=
  sound_of_cases fun v => by
    cases hr : files.reading v.world v.conn with
    | none => exact .inl (origin_passed hr)
    | some r => exact .inr ⟨_, origin_served hr⟩

/-- Of a file that is served, the tag of the answer spares it. -/
theorem origin_spares {v : Visit A Tree} (h : (files.call blake3 v.world v.conn).2 ≠ none) :
    ∀ s ∈ (origin blake3 files).full v, (origin blake3 files).ask v s.etag = none := by
  intro s hs
  cases hr : files.reading v.world v.conn with
  | none =>
    rw [call_eq, hr] at h
    exact absurd rfl h
  | some r =>
    obtain ⟨hask, s', hfull, htag⟩ := origin_served hr s.etag
    obtain rfl : s' = s := Option.some.inj (hfull.symm.trans hs)
    rw [hask, if_pos htag]

end StaticFiles

namespace ETag

variable (blake3) in
/-- The plug as a client sees it, behind handlers whose answers change. -/
def origin : Origin (Visit A Unit) (List UInt8) Stored := originOf fun _ conn => call blake3 conn

theorem call_conditional {conn : Conn A} (hstatus : conn.status = statusOk) (hbody : conn.respBody ≠ [])
    (etag : List UInt8) : call blake3 (conn.conditional etag) =
      if etag = asBytes (StaticFiles.etagValue blake3 conn.respBody) then
        ((((conn.conditional etag).putRespHeader "etag" (StaticFiles.etagValue blake3 conn.respBody)).putStatus
          statusNotModified).putRespBody []).halt
      else (conn.conditional etag).putRespHeader "etag" (StaticFiles.etagValue blake3 conn.respBody) := by
  have hstatus' : (conn.conditional etag).status = statusOk := hstatus
  rw [call_sent hstatus' hbody]
  simp only [conditional_sendsAlone, StaticFiles.toStr_eq_etagValue]
  rfl

theorem origin_passed {v : Visit A Unit} (h : v.conn.status ≠ statusOk ∨ v.conn.respBody = []) (etag : List UInt8) :
    (origin blake3).ask v etag = some ((origin blake3).full v) := by
  dsimp only [origin, originOf]
  have hask : call blake3 (v.conn.conditional etag) = v.conn.conditional etag := if_pos h
  have hfull : call blake3 v.conn.unconditional = v.conn.unconditional := if_pos h
  rw [hask, hfull]
  exact if_neg v.unanswered

variable (blake3) in
theorem origin_tagged {v : Visit A Unit} (hstatus : v.conn.status = statusOk) (hbody : v.conn.respBody ≠ [])
    (etag : List UInt8) : (origin blake3).ask v etag =
      (if etag = asBytes (StaticFiles.etagValue blake3 v.conn.respBody) then none
        else some ((origin blake3).full v)) ∧
    ∃ s, (origin blake3).full v = some s ∧ s.etag = asBytes (StaticFiles.etagValue blake3 v.conn.respBody) := by
  dsimp only [origin, originOf]
  rw [call_conditional hstatus hbody, call_unconditional hstatus, if_neg hbody]
  constructor
  · split
    · exact if_pos rfl
    · have hne : ((v.conn.conditional etag).putRespHeader "etag" (StaticFiles.etagValue blake3 v.conn.respBody)).status
          ≠ statusNotModified := by
        rw [StaticFiles.putRespHeader_status]
        exact v.unanswered
      rw [newer, if_neg hne, Conn.putRespHeader_eq, Conn.putRespHeader_eq]
      rfl
  · have hok : (v.conn.unconditional.putRespHeader "etag" (StaticFiles.etagValue blake3 v.conn.respBody)).status
        = statusOk := by
      rw [StaticFiles.putRespHeader_status]
      exact hstatus
    rw [Stored.of, if_pos hok, StaticFiles.get_etag]
    exact ⟨_, rfl, rfl⟩

theorem origin_sound : (origin blake3 (A := A)).Sound Stored.etag :=
  sound_of_cases fun v => by
    by_cases h : v.conn.status ≠ statusOk ∨ v.conn.respBody = []
    · exact .inl (origin_passed h)
    · obtain ⟨hstatus, hbody⟩ := not_or.mp h
      exact .inr ⟨_, origin_tagged blake3 (not_not.mp hstatus) hbody⟩

theorem origin_spares {v : Visit A Unit} (h : v.conn.status = statusOk ∧ v.conn.respBody ≠ []) :
    ∀ s ∈ (origin blake3).full v, (origin blake3).ask v s.etag = none := by
  intro s hs
  obtain ⟨hask, s', hfull, htag⟩ := origin_tagged blake3 h.1 h.2 s.etag
  obtain rfl : s' = s := Option.some.inj (hfull.symm.trans hs)
  rw [hask, if_pos htag]

end ETag

/-! ### Over all visits -/

/-- The key of a client's store. -/
def Visit.address (v : Visit A W) : Uri := v.conn.uri

/-- After these visits, what a client has kept is what it would have downloaded; and where the plug answers
the next one, it does so with a 304 exactly if the client has the full answer already. -/
structure Transparent (o : Origin (Visit A W) (List UInt8) Stored) (answers : Visit A W → Prop)
    (visits : List (Visit A W)) (v : Visit A W) : Prop where
  kept : revalidated o Stored.etag Visit.address visits = downloaded o Visit.address visits
  spared : answers v → ∀ s, revalidated o Stored.etag Visit.address visits v.address = some s →
    (o.ask v s.etag = none ↔ o.full v = some s)

theorem transparent_of_sound {o : Origin (Visit A W) (List UInt8) Stored} (hsound : o.Sound Stored.etag)
    {answers : Visit A W → Prop} (hspares : ∀ v, answers v → ∀ s ∈ o.full v, o.ask v s.etag = none)
    {visits : List (Visit A W)} {v : Visit A W} (h : TagsApart o Stored.etag Visit.address (visits ++ [v])) :
    Transparent o answers visits v where
  kept := revalidated_eq_downloaded hsound h.of_append
  spared hv _ hkept := ask_eq_none_iff hsound h (hspares v hv) hkept

namespace StaticFiles

/-- A script with these contents, and a variant of it if there is one. -/
def scriptTable (contents : String) (gz : Option String) : List (Location × Entry) :=
  [([asBytes "srv"], .dir), ([asBytes "srv", asBytes "app.js"], .file (some (asBytes contents)))] ++
    gz.toList.map fun gz => ([asBytes "srv", asBytes "app.js.gz"], .file (some (asBytes gz)))

theorem nothing_tabled : Tree.Tabled [] := by decide

def scriptTree (contents : String) (gz : Option String) : Tree :=
  if h : Tree.Tabled (scriptTable contents gz) then .ofTable _ 40 h else .ofTable [] 40 nothing_tabled

/-- A visit to the script, by a client that accepts these codings. -/
def scriptVisit (contents : String) (gz : Option String) (accept : String) : Visit Unit Tree where
  world := scriptTree contents gz
  conn := scriptRequest Unit [("accept-encoding", [asBytes accept])]
  get := rfl
  unanswered := show 200 ≠ 304 by decide

/-- The plug with contents as their own hash. -/
abbrev scriptOrigin : Origin (Visit Unit Tree) (List UInt8) Stored := variantFiles.origin id

end StaticFiles

open StaticFiles (scriptVisit scriptOrigin variantFiles)

/-- The script as it was first, and after a change. -/
def early : List (Visit Unit Tree) := [scriptVisit "run()" none "", scriptVisit "run()" none ""]
def late : Visit Unit Tree := scriptVisit "stop()" none ""

theorem script_downloaded :
    (downloaded scriptOrigin Visit.address early late.address).map (·.body) = some (asBytes "run()") ∧
      (downloaded scriptOrigin Visit.address (early ++ [late]) late.address).map (·.body) = some (asBytes "stop()") ∧
      (scriptOrigin.full late).map (·.body) = some (asBytes "stop()") ∧
      (variantFiles.call id late.world late.conn).2.isSome = true := by
  decide +kernel

theorem script_apart : TagsApart scriptOrigin Stored.etag Visit.address (early ++ [late] ++ [late]) := by
  unfold TagsApart
  decide +kernel

/-- A variant with the bytes of the file it is beside has its tag, and is taken for it. -/
theorem same_bytes_confused : ∃ visits : List (Visit Unit Tree),
    revalidated scriptOrigin Stored.etag Visit.address visits ≠ downloaded scriptOrigin Visit.address visits := by
  refine ⟨[scriptVisit "run()" (some "run()") "gzip", scriptVisit "run()" (some "run()") ""], fun h => ?_⟩
  have hcoding := congrArg (fun kept => (kept late.address).map (·.coding)) h
  revert hcoding
  decide +kernel

end Mahalo
