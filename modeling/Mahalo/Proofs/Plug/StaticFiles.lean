/-
What the plug for static files sends, and where it lies.

The check that a file lies in the directory is made of the file that was asked for.
What is sent may be another one: the first of the compressed variants beside it that the
client names and that can be read (`served_iff`).  It lies in the directory as well unless it
is a link out of it, or the directory is itself the file (`unlinked_within`), and these are all
the ways by which the plug sends a file from without (`serves_within_iff`).
-/
import Mahalo.Lib.Utf8
import Mahalo.Plug.StaticFiles

namespace Mahalo.StaticFiles

open FileTree RustStd

variable {A : Type}

/-! ### The request -/

/-- The request is for the regular file at `c` in the directory at `d`, by this path. -/
structure IsFor (files : StaticFiles) (fs : Tree) (conn : Conn A) (path : Path) (c d : Location) : Prop where
  method : conn.method = .get ∨ conn.method = .head
  relative : ∃ relative, conn.uri.path.toList = files.urlPrefix.toList ++ '/' :: relative ∧ relative ≠ [] ∧
    "..".toList ∉ split relative '/' ∧ path = files.dir.join (pathOf relative)
  file : fs.canonicalize path = some c
  directory : fs.canonicalize files.dir = some d
  inside : d <+: c
  regular : ∃ contents, fs.entry c = some (.file contents)

theorem relative_iff {files : StaticFiles} {path : String} {relative : List Char} (h : relative ≠ []) :
    files.relative path = some relative ↔ path.toList = files.urlPrefix.toList ++ '/' :: relative := by
  unfold StaticFiles.relative
  split
  · rename_i hpath
    have hlength : path.toList.length = files.urlPrefix.toList.length := by rw [hpath]
    constructor
    · intro hnil
      exact absurd (by simpa using hnil) (Ne.symm h)
    · intro hmore
      rw [hmore] at hlength
      simp at hlength
  · rw [Option.bind_eq_some_iff]
    constructor
    · rintro ⟨rest, hrest, hslash⟩
      rw [stripPrefix_eq_some.mp hrest, stripPrefix_eq_some.mp hslash]
      simp
    · intro hpath
      exact ⟨'/' :: relative, stripPrefix_eq_some.mpr hpath, stripPrefix_eq_some.mpr rfl⟩

theorem filePath_iff {files : StaticFiles} {conn : Conn A} {path : Path} :
    files.filePath conn = some path ↔
      (conn.method = .get ∨ conn.method = .head) ∧
        ∃ relative, conn.uri.path.toList = files.urlPrefix.toList ++ '/' :: relative ∧ relative ≠ [] ∧
          "..".toList ∉ split relative '/' ∧ path = files.dir.join (pathOf relative) := by
  unfold filePath
  constructor
  · intro h
    split at h
    · simp at h
    · rename_i hmethod
      split at h
      · simp at h
      · rename_i relative hrelative
        split at h
        · simp at h
        · rename_i hne
          have hne : relative ≠ [] := by simpa using hne
          split at h
          · simp at h
          · rename_i hup
            refine ⟨by tauto, relative, (relative_iff hne).mp hrelative, hne, by simpa using hup, ?_⟩
            simpa using h.symm
  · rintro ⟨hmethod, relative, hpath, hne, hup, rfl⟩
    rw [if_neg (by tauto), (relative_iff hne).mpr hpath]
    simp only
    rw [if_neg (by simpa using hne), if_neg (by simpa using hup)]

theorem canonical_iff {files : StaticFiles} {fs : Tree} {path : Path} {c : Location} :
    files.canonical fs path = some c ↔
      fs.canonicalize path = some c ∧ (∃ d, fs.canonicalize files.dir = some d ∧ d <+: c) ∧
        ∃ contents, fs.entry c = some (.file contents) := by
  unfold canonical
  constructor
  · intro h
    split at h
    · simp at h
    · rename_i c' hfile
      split at h
      · simp at h
      · rename_i d hdir
        split at h
        · simp at h
        · rename_i hin
          split at h
          · rename_i hregular
            obtain rfl : c' = c := by simpa using h
            exact ⟨hfile, ⟨d, hdir, by simpa using hin⟩,
              (Tree.isFile_ofLocation (Tree.canonicalize_real hfile)).mp hregular⟩
          · simp at h
  · rintro ⟨hfile, ⟨d, hdir, hin⟩, hregular⟩
    have hisFile := (Tree.isFile_ofLocation (Tree.canonicalize_real hfile)).mpr hregular
    simp only [hfile, hdir]
    rw [if_neg (by simpa using hin), if_pos hisFile]

theorem isFor_iff {files : StaticFiles} {fs : Tree} {conn : Conn A} {path : Path} {c : Location} :
    (∃ d, files.IsFor fs conn path c d) ↔
      files.filePath conn = some path ∧ files.canonical fs path = some c := by
  rw [filePath_iff, canonical_iff]
  constructor
  · rintro ⟨d, h⟩
    exact ⟨⟨h.method, h.relative⟩, h.file, ⟨d, h.directory, h.inside⟩, h.regular⟩
  · rintro ⟨⟨hmethod, hrelative⟩, hfile, ⟨d, hdirectory, hinside⟩, hregular⟩
    exact ⟨d, hmethod, hrelative, hfile, hdirectory, hinside, hregular⟩

/-! ### The variants -/

/-- The client names the variant's coding, and the variant is a file that can be read. -/
def offers (fs : Tree) (accept : String) (c : Location) (v : Variant) : Bool :=
  contains accept.toList v.token.toList && (fs.read (compressedPath c v)).isSome

theorem findVariant_eq (fs : Tree) (accept : String) (c : Location) (vs : List Variant) :
    findVariant fs accept c vs = (vs.find? (offers fs accept c)).bind fun v =>
      (fs.read (compressedPath c v)).map fun contents => (v, { path := compressedPath c v, contents }) := by
  induction vs with
  | nil => rfl
  | cons v rest ih =>
    unfold findVariant
    by_cases hnamed : contains accept.toList v.token.toList = true
    · cases hread : fs.read (compressedPath c v) with
      | none => simp [offers, hnamed, hread, ih]
      | some contents => simp [offers, hnamed, hread, Tree.isFile_of_read hread]
    · simp [offers, hnamed, ih]

/-- What is read for a request for the file at `c`. -/
def source (fs : Tree) (conn : Conn A) (path : Path) (c : Location) : Path :=
  if isCompressible (mimeFromExtension (extensionText path.fileName)) then
    match variants.find? (offers fs (acceptEncoding conn) c) with
    | some v => compressedPath c v
    | none => .ofLocation c
  else .ofLocation c

variable {blake3 : List UInt8 → List UInt8}

theorem call_of_isFor {files : StaticFiles} {fs : Tree} {conn : Conn A} {path : Path} {c d : Location}
    (h : files.IsFor fs conn path c d) :
    (files.call blake3 fs conn).2 =
      (fs.read (source fs conn path c)).map fun contents => { path := source fs conn path c, contents } := by
  obtain ⟨hpath, hcanonical⟩ := isFor_iff.mp ⟨d, h⟩
  unfold call source
  rw [hpath]
  simp only [hcanonical, findVariant_eq]
  by_cases hcomp : isCompressible (mimeFromExtension (extensionText path.fileName)) = true
  · simp only [hcomp, if_true]
    cases hfirst : variants.find? (offers fs (acceptEncoding conn) c) with
    | none =>
      simp only [Option.bind_none]
      cases fs.read (.ofLocation c) <;> rfl
    | some v =>
      have hoffers := List.find?_some hfirst
      obtain ⟨contents, hread⟩ := Option.isSome_iff_exists.mp (Bool.and_eq_true_iff.mp hoffers).2
      simp [hread]
  · simp only [if_neg hcomp]
    cases fs.read (.ofLocation c) <;> rfl

theorem served_iff {files : StaticFiles} {fs : Tree} {conn : Conn A} {served : Served} :
    (files.call blake3 fs conn).2 = some served ↔
      ∃ path c d, files.IsFor fs conn path c d ∧ served.path = source fs conn path c ∧
        fs.read served.path = some served.contents := by
  constructor
  · intro h
    obtain ⟨path, c, d, hfor⟩ : ∃ path c d, files.IsFor fs conn path c d := by
      cases hpath : files.filePath conn with
      | none => simp [call, hpath] at h
      | some path =>
        cases hcanonical : files.canonical fs path with
        | none => simp [call, hpath, hcanonical] at h
        | some c =>
          obtain ⟨d, hfor⟩ := isFor_iff.mpr ⟨hpath, hcanonical⟩
          exact ⟨path, c, d, hfor⟩
    rw [call_of_isFor hfor, Option.map_eq_some_iff] at h
    obtain ⟨contents, hread, rfl⟩ := h
    exact ⟨path, c, d, hfor, rfl, hread⟩
  · rintro ⟨path, c, d, hfor, hsource, hread⟩
    rw [call_of_isFor hfor, ← hsource, hread]
    rfl

/-! ### The answer -/

@[simp] theorem putRespHeader_method (conn : Conn A) (key value : String) :
    (conn.putRespHeader key value).method = conn.method := by
  unfold Conn.putRespHeader
  split <;> rfl

@[simp] theorem putRespHeader_status (conn : Conn A) (key value : String) :
    (conn.putRespHeader key value).status = conn.status := by
  unfold Conn.putRespHeader
  split <;> rfl

@[simp] theorem putRespHeader_respBody (conn : Conn A) (key value : String) :
    (conn.putRespHeader key value).respBody = conn.respBody := by
  unfold Conn.putRespHeader
  split <;> rfl

/-- The digits of a hash are visible characters, one byte each, and no quotes. -/
theorem toHex_visible (hash : List UInt8) : ∀ c ∈ toHex hash, encodeChar c = [UInt8.ofNat c.toNat] ∧
    32 ≤ UInt8.ofNat c.toNat ∧ UInt8.ofNat c.toNat ≠ 127 ∧ UInt8.ofNat c.toNat ≠ 34 := by
  have hdigit : ∀ n < 16, encodeChar (Nat.digitChar n) = [UInt8.ofNat (Nat.digitChar n).toNat] ∧
      32 ≤ UInt8.ofNat (Nat.digitChar n).toNat ∧ UInt8.ofNat (Nat.digitChar n).toNat ≠ 127 ∧
      UInt8.ofNat (Nat.digitChar n).toNat ≠ 34 := by
    decide
  intro c hc
  obtain ⟨b, _, hb⟩ := List.mem_flatMap.mp hc
  have hlt := b.toNat_lt
  simp only [List.mem_cons, List.not_mem_nil, or_false] at hb
  rcases hb with rfl | rfl
  · exact hdigit _ (by omega)
  · exact hdigit _ (by omega)

/-- What stands between the quotes of a tag. -/
def tagText (blake3 : List UInt8 → List UInt8) (contents : List UInt8) : List UInt8 :=
  ((toHex (blake3 contents)).take 32).flatMap encodeChar

theorem asBytes_etagValue (contents : List UInt8) :
    asBytes (etagValue blake3 contents) = [87, 47, 34] ++ tagText blake3 contents ++ [34] := by
  simp [etagValue, asBytes, encodeChar, tagText]

theorem tagText_visible (contents : List UInt8) :
    ∀ b ∈ tagText blake3 contents, 32 ≤ b ∧ b ≠ 127 ∧ b ≠ 34 := by
  intro b hb
  obtain ⟨c, hc, hcb⟩ := List.mem_flatMap.mp hb
  obtain ⟨hone, hvisible⟩ := toHex_visible _ c (List.mem_of_mem_take hc)
  obtain rfl : b = UInt8.ofNat c.toNat := by simpa [hone] using hcb
  exact hvisible

theorem headerValue_etagValue (contents : List UInt8) :
    headerValue (etagValue blake3 contents) = some (asBytes (etagValue blake3 contents)) := by
  unfold headerValue
  rw [if_pos]
  rw [asBytes_etagValue, List.all_append, List.all_append, Bool.and_eq_true, Bool.and_eq_true]
  refine ⟨⟨by decide, ?_⟩, by decide⟩
  rw [List.all_eq_true]
  intro b hb
  obtain ⟨hlow, hne, _⟩ := tagText_visible contents b hb
  simp [hlow, hne]

/-- The answer was made from the contents: their tag, and themselves where a body is sent. -/
structure MadeFrom (blake3 : List UInt8 → List UInt8) (conn answer : Conn A) (contents : List UInt8) : Prop where
  halted : answer.halted = true
  tag : answer.respHeaders.get "etag" = some (asBytes (etagValue blake3 contents))
  body : answer.status = statusNotModified ∧ answer.respBody = [] ∨
    answer.status = statusOk ∧ answer.respBody = if conn.method = .head then conn.respBody else contents

theorem finish_madeFrom {conn conn' : Conn A} {contents : List UInt8} (etagMatch : Bool)
    (hmethod : conn'.method = conn.method) (hstatus : conn'.status = statusOk)
    (hbody : conn'.respBody = conn.respBody)
    (htag : conn'.respHeaders.get "etag" = some (asBytes (etagValue blake3 contents))) :
    MadeFrom blake3 conn (finish conn' etagMatch contents) contents := by
  unfold finish
  split
  · exact ⟨rfl, htag, .inl ⟨rfl, rfl⟩⟩
  · split
    · rename_i hnot
      exact ⟨rfl, htag, .inr ⟨hstatus, by rw [if_neg (hmethod ▸ hnot)]; rfl⟩⟩
    · rename_i hhead
      exact ⟨rfl, htag, .inr ⟨hstatus, by rw [if_pos (by simpa [hmethod] using hhead)]; exact hbody⟩⟩

theorem get_etag (conn : Conn A) (contents : List UInt8) :
    (conn.putRespHeader "etag" (etagValue blake3 contents)).respHeaders.get "etag" =
      some (asBytes (etagValue blake3 contents)) := by
  simp [Conn.putRespHeader, headerValue_etagValue, HeaderMap.get_insert]

theorem serveVariant_madeFrom (files : StaticFiles) (conn : Conn A) (mime : String) (v : Variant)
    (contents : List UInt8) :
    MadeFrom blake3 conn (files.serveVariant blake3 conn mime v contents) contents := by
  unfold serveVariant checkEtag
  apply finish_madeFrom
  · simp [putTypeAndCache, Conn.putStatus]
  · simp [putTypeAndCache, Conn.putStatus]
  · simp [putTypeAndCache, Conn.putStatus]
  · simp [putTypeAndCache, HeaderMap.get_insert, Conn.get_putRespHeader_ne, Conn.putStatus, get_etag]

theorem serveFile_madeFrom (files : StaticFiles) (conn : Conn A) (mime : String) (contents : List UInt8) :
    MadeFrom blake3 conn (files.serveFile blake3 conn mime contents) contents := by
  unfold serveFile checkEtag
  apply finish_madeFrom
  · split <;> simp [putTypeAndCache, Conn.putStatus]
  · split <;> simp [putTypeAndCache, Conn.putStatus]
  · split <;> simp [putTypeAndCache, Conn.putStatus]
  · split <;> simp [putTypeAndCache, HeaderMap.get_insert, Conn.get_putRespHeader_ne, Conn.putStatus, get_etag]

/-- The request is given back as it is, or answered from the file that was read. -/
theorem call_cases (files : StaticFiles) (fs : Tree) (conn : Conn A) :
    files.call blake3 fs conn = (conn, none) ∨
      ∃ answer served, files.call blake3 fs conn = (answer, some served) ∧
        MadeFrom blake3 conn answer served.contents := by
  unfold call
  split
  · exact .inl rfl
  · split
    · exact .inl rfl
    · dsimp only
      split
      · exact .inr ⟨_, _, rfl, serveVariant_madeFrom _ _ _ _ _⟩
      · split
        · exact .inl rfl
        · exact .inr ⟨_, _, rfl, serveFile_madeFrom _ _ _ _⟩

/-! ### Where it lies -/

/-- The file was read at a place in the directory. -/
def Within (fs : Tree) (dir : Path) (served : Served) : Prop :=
  ∃ c d, fs.canonicalize served.path = some c ∧ fs.entry c = some (.file (some served.contents)) ∧
    fs.canonicalize dir = some d ∧ d <+: c

/-- A link stands there. -/
def Linked (fs : Tree) (c : Location) : Prop := ∃ target, fs.entry c = some (.symlink target)

/-- A variant's name is not the file's, nor one that stands for a directory nearby. -/
theorem compressedPath_concat (up : Location) (name : Name) {v : Variant} (hv : v ∈ variants) :
    ∃ name', compressedPath (up ++ [name]) v = .ofLocation (up ++ [name']) ∧ name' ≠ name ∧
      name' ≠ [] ∧ name' ≠ dot ∧ name' ≠ dotDot := by
  have hsuffix : 3 ≤ (asBytes v.suffix).length := by
    revert v
    decide
  have hbytes : ∀ s t : String, asBytes (s ++ t) = asBytes s ++ asBytes t := by
    intro s t
    simp [asBytes]
  have hne : asBytes (extensionText (some name) ++ v.suffix) ≠ [] := by
    rw [hbytes]
    intro hnil
    simp [List.append_eq_nil_iff.mp hnil] at hsuffix
  refine ⟨(splitExtension name).1 ++ 46 :: asBytes (extensionText (some name) ++ v.suffix), ?_, ?_, ?_⟩
  · simp [compressedPath, withExtension, hne]
  · rw [hbytes]
    intro hsame
    rcases splitExtension_eq name with hnone | ⟨stem, ext, hsome, hname⟩
    · have hlength := congrArg List.length hsame
      simp [hnone] at hlength
    · have hbehind : asBytes (extensionText (some name)) ++ asBytes v.suffix = ext := by
        rw [hsome] at hsame
        simpa using hsame.trans hname
      cases hext : fromUtf8 ext with
      | none =>
        have hbare : asBytes v.suffix = ext := by simpa [extensionText, hsome, hext, asBytes] using hbehind
        rw [← hbare, fromUtf8_encode] at hext
        simp at hext
      | some text =>
        have htext : asBytes (extensionText (some name)) = ext := by
          simp [extensionText, hsome, hext, asBytes_of_fromUtf8 hext]
        have hlength := congrArg List.length hbehind
        simp only [htext, List.length_append] at hlength
        omega
  · have hlength : 4 ≤ ((splitExtension name).1 ++ 46 ::
        asBytes (extensionText (some name) ++ v.suffix)).length := by
      simp [hbytes]
      omega
    refine ⟨?_, ?_, ?_⟩ <;> intro hshort <;> rw [hshort] at hlength <;> simp [dot, dotDot] at hlength

/-- The first variant that is offered is no link out of the directory, and if it is no link, it does not
stand beside a directory that is itself the file. -/
def VariantsWithin (files : StaticFiles) (fs : Tree) (conn : Conn A) : Prop :=
  ∀ path c d v, files.IsFor fs conn path c d →
    isCompressible (mimeFromExtension (extensionText path.fileName)) = true →
    variants.find? (offers fs (acceptEncoding conn) c) = some v →
    (Linked fs (compressedPath c v).segments → ∀ e, fs.canonicalize (compressedPath c v) = some e → d <+: e) ∧
      (¬ Linked fs (compressedPath c v).segments → c ≠ d)

/-- A variant that is no link lies in the directory, unless that is the file itself. -/
theorem unlinked_within {fs : Tree} {c d e : Location} {v : Variant} (hv : v ∈ variants)
    (hinside : d <+: c) (hc : ∃ contents, fs.entry c = some (.file contents))
    (hlink : ¬ Linked fs (compressedPath c v).segments)
    (he : fs.canonicalize (compressedPath c v) = some e) : d <+: e ↔ c ≠ d := by
  obtain ⟨contents, hc⟩ := hc
  induction c using List.reverseRecOn with
  | nil =>
    rw [fs.root] at hc
    simp at hc
  | append_singleton up name _ =>
    obtain ⟨name', hpath, hother, hname'⟩ := compressedPath_concat up name hv
    rw [hpath] at he hlink
    have hup : fs.entry up = some .dir := fs.parent up name (by simp [hc])
    obtain rfl : e = up ++ [name'] :=
      Tree.canonicalize_concat hname' hup (fun target htarget => hlink ⟨target, htarget⟩) he
    rw [List.prefix_concat_iff] at hinside ⊢
    constructor
    · rintro (rfl | hin) hsame
      · exact hother (by simpa using hsame.symm)
      · subst hsame
        have hlength := hin.length_le
        rw [List.length_append, List.length_singleton] at hlength
        omega
    · intro hne
      exact .inr (hinside.resolve_left (Ne.symm hne))

theorem serves_within_iff (files : StaticFiles) (fs : Tree) (conn : Conn A) (blake3 : List UInt8 → List UInt8) :
    (∀ served, (files.call blake3 fs conn).2 = some served → Within fs files.dir served) ↔
      files.VariantsWithin fs conn := by
  constructor
  · intro h path c d v hfor hcomp hfirst
    have hsource : source fs conn path c = compressedPath c v := by simp [source, hcomp, hfirst]
    have hoffers := List.find?_some hfirst
    obtain ⟨contents, hread⟩ := Option.isSome_iff_exists.mp (Bool.and_eq_true_iff.mp hoffers).2
    obtain ⟨c', d', hc', _, hd', hin⟩ := h { path := compressedPath c v, contents }
      (served_iff.mpr ⟨path, c, d, hfor, hsource.symm, hread⟩)
    obtain rfl : d = d' := Option.some.inj (hfor.directory.symm.trans hd')
    constructor
    · intro _ e he
      obtain rfl : e = c' := Option.some.inj (he.symm.trans hc')
      exact hin
    · intro hlink
      exact (unlinked_within (List.mem_of_find?_eq_some hfirst) hfor.inside hfor.regular hlink hc').mp hin
  · intro h served hserved
    obtain ⟨path, c, d, hfor, hsource, hread⟩ := served_iff.mp hserved
    obtain ⟨e, he, hentry⟩ := Tree.read_iff.mp hread
    refine ⟨e, d, he, hentry, hfor.directory, ?_⟩
    have hself : fs.canonicalize (.ofLocation c) = some c :=
      Tree.canonicalize_ofLocation (Tree.canonicalize_real hfor.file)
    unfold source at hsource
    split at hsource
    · rename_i hcomp
      split at hsource
      · rename_i v hfirst
        rw [hsource] at he
        obtain ⟨hlinked, hunlinked⟩ := h path c d v hfor hcomp hfirst
        by_cases hlink : Linked fs (compressedPath c v).segments
        · exact hlinked hlink e he
        · exact (unlinked_within (List.mem_of_find?_eq_some hfirst) hfor.inside hfor.regular hlink he).mpr
            (hunlinked hlink)
      · obtain rfl : e = c := Option.some.inj (he.symm.trans (hsource ▸ hself))
        exact hfor.inside
    · obtain rfl : e = c := Option.some.inj (he.symm.trans (hsource ▸ hself))
      exact hfor.inside

/-- A directory with a script, beside it a link to a key that lies elsewhere. -/
def linkedTree : Tree :=
  .ofTable
    [([asBytes "srv"], .dir),
      ([asBytes "srv", asBytes "app.js"], .file (some (asBytes "run()"))),
      ([asBytes "srv", asBytes "app.js.br"], .symlink (pathOf "/etc/key".toList)),
      ([asBytes "etc"], .dir), ([asBytes "etc", asBytes "key"], .file (some (asBytes "k")))]
    40 (by decide +kernel)

def linkedFiles : StaticFiles := .new "static" (pathOf "/srv".toList)

def linkedRequest : Conn Unit :=
  { Conn.new .get { path := "/static/app.js", query := none } with
    headers := [("accept-encoding", [asBytes "gzip, br"])] }

/-- The key is sent for the script. -/
theorem linked_variant_leaves : ¬ ∀ (files : StaticFiles) (fs : Tree) (conn : Conn Unit)
    (blake3 : List UInt8 → List UInt8) (served : Served),
    (files.call blake3 fs conn).2 = some served → Within fs files.dir served := by
  intro h
  have hserved : (linkedFiles.call (fun _ => List.replicate 32 0) linkedTree linkedRequest).2 =
      some { path := .ofLocation [asBytes "srv", asBytes "app.js.br"], contents := asBytes "k" } := by
    decide +kernel
  obtain ⟨c, d, hc, _, hd, hin⟩ := h linkedFiles linkedTree linkedRequest _ _ hserved
  have hkey : linkedTree.canonicalize (.ofLocation [asBytes "srv", asBytes "app.js.br"]) =
      some [asBytes "etc", asBytes "key"] := by
    decide +kernel
  have hdir : linkedTree.canonicalize linkedFiles.dir = some [asBytes "srv"] := by decide +kernel
  obtain rfl := Option.some.inj (hkey.symm.trans hc)
  obtain rfl := Option.some.inj (hdir.symm.trans hd)
  exact absurd hin (by decide +kernel)

end Mahalo.StaticFiles
