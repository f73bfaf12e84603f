/-
Which files of a directory can be reached.

A request for a file is for the plug's prefix, a slash and the file's percent-encoded path.
The plug takes what stands behind the prefix and its slash for the path as it is written, so
it finds the file if the encoding is a way to it as well: if no byte of the path is escaped,
and where no links stand only then.  A prefix made of slashes alone is kept as the slash that
the request has before the path already, and no file is reached under it.
-/
import Mahalo.Lib.Percent
import Mahalo.Proofs.Plug.StaticFiles
import Mahalo.Proofs.Router.Paths

namespace Mahalo.StaticFiles

open FileTree RustStd Percent

variable {A : Type} {blake3 : List UInt8 → List UInt8}

/-! ### The prefix -/

theorem popSlashes_root_iff {backwards : List Char} (hne : backwards ≠ []) :
    popSlashes backwards = ['/'] ↔ ∀ c ∈ backwards, c = '/' := by
  induction backwards using popSlashes.induct with
  | case1 c rest ih =>
    rw [popSlashes, ih (by simp), List.forall_mem_cons (a := '/')]
    simp
  | case2 backwards hkept =>
    rw [popSlashes]
    · constructor
      · rintro rfl
        simp
      · intro hall
        match backwards, hne, hkept, hall with
        | [c], _, _, hall => rw [hall c (by simp)]
        | c :: c' :: rest, _, hkept, hall =>
          obtain rfl : c = '/' := hall c (by simp)
          exact absurd rfl (hkept c' rest)
    · exact hkept

/-- The prefix is the root's if it was made of slashes alone, or empty. -/
theorem urlPrefix_root_iff (urlPrefix : String) (dir : Path) :
    (new urlPrefix dir).urlPrefix = "/" ↔ ∀ c ∈ urlPrefix.toList, c = '/' := by
  have htext : ∀ cs : List Char, String.ofList cs = "/" ↔ cs.reverse = ['/'] := by
    intro cs
    rw [← String.toList_inj, String.toList_ofList, List.reverse_eq_iff]
    rfl
  unfold new
  rw [htext, List.reverse_reverse]
  split
  · rename_i hslash
    have hne : urlPrefix.toList.reverse ≠ [] := by
      intro hnil
      rw [List.reverse_eq_nil_iff.mp hnil] at hslash
      simp [startsWith] at hslash
    rw [popSlashes_root_iff hne]
    simp
  · rw [popSlashes_root_iff (by simp)]
    constructor
    · exact fun hall c hc => hall c (by simp [hc])
    · intro hall c hc
      rcases List.mem_cons.mp (List.mem_reverse.mp hc) with hslash | hc
      · exact hslash
      · exact hall c hc

/-! ### The encoded path -/

/-- The names from the directory to the file, percent-encoded, and slashes between them. -/
def encodePath (r : Location) : List Char := ['/'].intercalate (r.map encode)

/-- The prefix, joined with one slash to the encoded path. -/
def requestPath (urlPrefix : String) (r : Location) : List Char :=
  (if urlPrefix = "/" then [] else urlPrefix.toList) ++ '/' :: encodePath r

/-- The name that an encoded name is taken for. -/
def spelled (name : Name) : Name := asBytes (String.ofList (encode name))

theorem slash_not_mem (name : Name) : '/' ∉ encode name := reserved_not_mem (by decide) name

theorem split_encodePath {r : Location} (hr : r ≠ []) : split (encodePath r) '/' = r.map encode := by
  rw [encodePath, split_eq_splitOn]
  refine List.splitOn_intercalate '/' ?_ (by simpa using hr)
  intro piece hpiece
  obtain ⟨name, _, rfl⟩ := List.mem_map.mp hpiece
  exact slash_not_mem name

/-- The encoded path begins with a character of its first name, and so with no slash. -/
theorem encodePath_head {name : Name} {r : Location} (hname : name ≠ []) :
    ∃ c rest, encodePath (name :: r) = c :: rest ∧ c ≠ '/' := by
  obtain ⟨c, cs, hencode⟩ : ∃ c cs, encode name = c :: cs := by
    refine List.exists_cons_of_ne_nil fun hnil => hname (encode_injective ?_)
    rw [hnil]
    rfl
  have hc : c ≠ '/' := by
    rintro rfl
    exact slash_not_mem name (by simp [hencode])
  cases r with
  | nil => exact ⟨c, cs, by simp [encodePath, hencode], hc⟩
  | cons next more => exact ⟨c, _, by simp [encodePath, hencode, List.intercalate]; rfl, hc⟩

theorem pathOf_encodePath {name : Name} {r : Location} (hname : name ≠ []) :
    pathOf (encodePath (name :: r)) = { absolute := false, segments := (name :: r).map spelled } := by
  obtain ⟨c, rest, hcons, hc⟩ := encodePath_head (r := r) hname
  have hrelative : startsWith (encodePath (name :: r)) ['/'] = false := by
    have hne : ('/' == c) = false := beq_false_of_ne (Ne.symm hc)
    simp [hcons, startsWith, List.isPrefixOf, hne]
  rw [pathOf, hrelative, split_encodePath (by simp), List.map_map]
  rfl

/-- No segment of an encoded path goes up. -/
theorem no_dotDot {r : Location} (hr : r ≠ []) (hnames : ∀ name ∈ r, Normal name) :
    "..".toList ∉ split (encodePath r) '/' := by
  rw [split_encodePath hr]
  intro hup
  obtain ⟨name, hname, hencode⟩ := List.mem_map.mp hup
  have hdots : name = dotDot := encode_injective (hencode.trans (by decide))
  exact (hnames name hname).1.2.2 hdots

/-! ### The request -/

/-- A GET request for the encoded path. -/
structure Requests (files : StaticFiles) (conn : Conn A) (r : Location) : Prop where
  method : conn.method = .get
  path : conn.uri.path.toList = requestPath files.urlPrefix r

/-- The path is neither the prefix nor does it go on from it with a slash. -/
def Outside (files : StaticFiles) (conn : Conn A) : Prop :=
  conn.uri.path ≠ files.urlPrefix ∧ ¬ files.urlPrefix.toList ++ ['/'] <+: conn.uri.path.toList

/-- The answer is made from the file at `c`, or from a variant of it that was negotiated. -/
def Answered (blake3 : List UInt8 → List UInt8) (files : StaticFiles) (fs : Tree) (conn : Conn A) (c : Location) :
    Prop :=
  ∃ answer served, files.call blake3 fs conn = (answer, some served) ∧
    MadeFrom blake3 conn answer served.contents ∧ fs.read served.path = some served.contents ∧
    (served.path = .ofLocation c ∨
      ∃ v ∈ variants, offers fs (acceptEncoding conn) c v = true ∧ served.path = compressedPath c v)

/-- The encoding, taken as it is written, is a way from the directory to the file. -/
def Spelled (fs : Tree) (dir : Path) (r c : Location) : Prop :=
  fs.canonicalize (dir.join (pathOf (encodePath r))) = some c

theorem outside_unchanged {files : StaticFiles} {conn : Conn A} (h : files.Outside conn) (fs : Tree) :
    files.call blake3 fs conn = (conn, none) := by
  have hnone : files.filePath conn = none := by
    rw [Option.eq_none_iff_forall_ne_some]
    intro path hpath
    obtain ⟨_, relative, htext, _⟩ := filePath_iff.mp hpath
    exact h.2 ⟨relative, by simp [htext]⟩
  simp [call, hnone]

theorem source_cases (fs : Tree) (conn : Conn A) (path : Path) (c : Location) :
    source fs conn path c = .ofLocation c ∨
      ∃ v ∈ variants, offers fs (acceptEncoding conn) c v = true ∧ source fs conn path c = compressedPath c v := by
  unfold source
  split
  · split
    · rename_i v hfirst
      exact .inr ⟨v, List.mem_of_find?_eq_some hfirst, List.find?_some hfirst, rfl⟩
    · exact .inl rfl
  · exact .inl rfl

/-- A request for a readable file is answered from it. -/
theorem answered_of_isFor {files : StaticFiles} {fs : Tree} {conn : Conn A} {path : Path} {c d : Location}
    {contents : List UInt8} (h : files.IsFor fs conn path c d) (hfile : fs.entry c = some (.file (some contents))) :
    Answered blake3 files fs conn c := by
  have hreadable : ∃ read, fs.read (source fs conn path c) = some read := by
    rcases source_cases fs conn path c with hplain | ⟨v, _, hoffers, hvariant⟩
    · rw [hplain]
      exact ⟨contents, Tree.read_iff.mpr ⟨c, Tree.canonicalize_ofLocation (Tree.canonicalize_real h.file), hfile⟩⟩
    · rw [hvariant]
      exact Option.isSome_iff_exists.mp (Bool.and_eq_true_iff.mp hoffers).2
  obtain ⟨read, hread⟩ := hreadable
  have hserved : (files.call blake3 fs conn).2 = _ := call_of_isFor h
  rw [hread, Option.map_some] at hserved
  rcases @call_cases A blake3 files fs conn with hpassed | ⟨answer, served, hcall, hmade⟩
  · rw [hpassed] at hserved
    simp at hserved
  · rw [hcall] at hserved
    obtain rfl := Option.some.inj hserved
    exact ⟨answer, _, hcall, hmade, hread, source_cases fs conn path c⟩

variable {urlPrefix : String} {dir : Path} {fs : Tree} {d r : Location} {contents : List UInt8}

theorem normal_below {name : Name} (hfile : fs.entry (d ++ r) = some (.file (some contents))) (hname : name ∈ r) :
    Normal name := by
  obtain ⟨up, down, rfl⟩ := List.append_of_mem hname
  have hsome : fs.entry ((d ++ up) ++ [name]) ≠ none := by
    cases down with
    | nil =>
      rw [List.append_assoc, hfile]
      simp
    | cons next more =>
      have hbelow : fs.entry ((d ++ up ++ [name]) ++ next :: more) ≠ none := by
        simp only [List.append_assoc, List.cons_append, List.nil_append] at hfile ⊢
        rw [hfile]
        simp
      rw [Tree.dir_above hbelow]
      simp
  exact fs.normal _ name hsome

theorem isFor_of_requests {files : StaticFiles} {conn : Conn A} (hrequest : files.Requests conn r)
    (hr : r ≠ []) (hfile : fs.entry (d ++ r) = some (.file (some contents)))
    (hdir : fs.canonicalize files.dir = some d) (hroot : files.urlPrefix ≠ "/")
    (hspelled : Spelled fs files.dir r (d ++ r)) :
    files.IsFor fs conn (files.dir.join (pathOf (encodePath r))) (d ++ r) d := by
  have hnames : ∀ name ∈ r, Normal name := fun name => normal_below hfile
  refine ⟨.inl hrequest.method, ⟨encodePath r, ?_, ?_, no_dotDot hr hnames, rfl⟩, hspelled, hdir,
    List.prefix_append d r, ⟨_, hfile⟩⟩
  · rw [hrequest.path, requestPath, if_neg hroot]
  · cases r with
    | nil => exact absurd rfl hr
    | cons name more =>
      obtain ⟨c, rest, hcons, _⟩ := encodePath_head (r := more) (hnames name (by simp)).1.1
      simp [hcons]

/-- A request without codings that is answered from the file was not for the root, and spelled the file's path. -/
theorem spelled_of_answered {files : StaticFiles} {conn : Conn A} (hrequest : files.Requests conn r)
    (hplain : acceptEncoding conn = "") (hr : r ≠ []) (hfile : fs.entry (d ++ r) = some (.file (some contents)))
    (h : Answered blake3 files fs conn (d ++ r)) :
    files.urlPrefix ≠ "/" ∧ Spelled fs files.dir r (d ++ r) := by
  obtain ⟨answer, served, hcall, _, _, hfrom⟩ := h
  have hnone : ∀ v ∈ variants, ∀ c, offers fs (acceptEncoding conn) c v = false := by
    have hnamed : ∀ v ∈ variants, contains "".toList v.token.toList = false := by decide
    intro v hv c
    rw [offers, hplain, hnamed v hv, Bool.false_and]
  have hfrom : served.path = .ofLocation (d ++ r) := by
    rcases hfrom with hfile | ⟨v, hv, hoffers, _⟩
    · exact hfile
    · rw [hnone v hv] at hoffers
      exact absurd hoffers Bool.false_ne_true
  obtain ⟨path, c, d', hfor, hsource, _⟩ := served_iff.mp (congrArg Prod.snd hcall)
  obtain rfl : c = d ++ r := by
    rcases source_cases fs conn path c with hsame | ⟨v, hv, hoffers, _⟩
    · rw [hsource, hsame] at hfrom
      exact congrArg Path.segments hfrom
    · rw [hnone v hv] at hoffers
      exact absurd hoffers Bool.false_ne_true
  obtain ⟨relative, htext, _, _, hpath⟩ := hfor.relative
  rw [hrequest.path, requestPath] at htext
  by_cases hroot : files.urlPrefix = "/"
  · rw [if_pos hroot, hroot] at htext
    cases r with
    | nil => exact absurd rfl hr
    | cons name more =>
      have hname : Normal name := normal_below hfile (by simp)
      obtain ⟨c, rest, hcons, hc⟩ := encodePath_head (r := more) hname.1.1
      rw [hcons] at htext
      simp [hc] at htext
  · rw [if_neg hroot] at htext
    obtain rfl : encodePath r = relative := by simpa using htext
    refine ⟨hroot, ?_⟩
    rw [Spelled, ← hpath]
    exact hfor.file

/-! ### The spelling -/

theorem spelled_injective : Function.Injective spelled := by
  intro name name' h
  have htext := congrArg String.toList (asBytes_inj h)
  simp only [String.toList_ofList] at htext
  exact encode_injective htext

theorem spelled_normal {name : Name} (h : name ≠ [] ∧ name ≠ dot ∧ name ≠ dotDot) :
    spelled name ≠ [] ∧ spelled name ≠ dot ∧ spelled name ≠ dotDot := by
  have hempty : spelled [] = [] := by decide
  have hdot : spelled dot = dot := by decide
  have hdotDot : spelled dotDot = dotDot := by decide
  refine ⟨fun hs => h.1 ?_, fun hs => h.2.1 ?_, fun hs => h.2.2 ?_⟩
  · exact spelled_injective (hs.trans hempty.symm)
  · exact spelled_injective (hs.trans hdot.symm)
  · exact spelled_injective (hs.trans hdotDot.symm)

/-- No byte of the path is one that is escaped. -/
def Unreserved (r : Location) : Prop := ∀ name ∈ r, ∀ b ∈ name, isUnreserved b = true

theorem map_spelled_iff : r.map spelled = r ↔ Unreserved r := by
  induction r with
  | nil => simp [Unreserved]
  | cons name more ih =>
    rw [List.map_cons, List.cons_eq_cons, ih, spelled, asBytes_encode_iff]
    simp [Unreserved]

theorem spelled_eq (hr : r ≠ []) (hnames : ∀ name ∈ r, Normal name) (c : Location) : Spelled fs dir r c ↔
    fs.canonicalize { dir with segments := dir.segments ++ r.map spelled } = some c := by
  cases r with
  | nil => exact absurd rfl hr
  | cons name more =>
    rw [Spelled, pathOf_encodePath (hnames name (by simp)).1.1, Path.join]
    simp

theorem spelled_of_unreserved (hdir : fs.canonicalize dir = some d) (hr : r ≠ [])
    (hfile : fs.entry (d ++ r) = some (.file (some contents))) (h : Unreserved r) : Spelled fs dir r (d ++ r) := by
  rw [spelled_eq hr fun name => normal_below hfile, map_spelled_iff.mpr h]
  obtain ⟨m, hwalk⟩ := Tree.canonicalize_append hdir r
  rw [hwalk]
  exact Tree.walk_to m ⟨_, hfile, by simp⟩

theorem unreserved_of_spelled (hdir : fs.canonicalize dir = some d) (hr : r ≠ [])
    (hfile : fs.entry (d ++ r) = some (.file (some contents)))
    (hlinks : ∀ below target, fs.entry (d ++ below) ≠ some (.symlink target))
    (h : Spelled fs dir r (d ++ r)) : Unreserved r := by
  have hnames : ∀ name ∈ r, Normal name := fun name => normal_below hfile
  rw [spelled_eq hr hnames] at h
  obtain ⟨m, hwalk⟩ := Tree.canonicalize_append hdir (r.map spelled)
  rw [hwalk] at h
  have hspelled : ∀ name ∈ r.map spelled, name ≠ [] ∧ name ≠ dot ∧ name ≠ dotDot := by
    intro name hname
    obtain ⟨name', hname', rfl⟩ := List.mem_map.mp hname
    exact spelled_normal (hnames name' hname').1
  have hsame := Tree.walk_unlinked m _ d _ hlinks hspelled h
  exact map_spelled_iff.mp (by simpa using hsame.symm)

/--
**A file is reached exactly if the prefix is not the root's and the encoding is a way to it.**
The encoding is one if no byte is escaped, and without links only then; and what is not under the
prefix is passed through.
-/
theorem reachable_iff (blake3 : List UInt8 → List UInt8) (urlPrefix : String)
    (hdir : fs.canonicalize dir = some d) (hr : r ≠ []) (hfile : fs.entry (d ++ r) = some (.file (some contents))) :
    ((∀ conn : Conn A, (new urlPrefix dir).Requests conn r →
        Answered blake3 (new urlPrefix dir) fs conn (d ++ r)) ↔
      (∃ c ∈ urlPrefix.toList, c ≠ '/') ∧ Spelled fs dir r (d ++ r)) ∧
    (Unreserved r → Spelled fs dir r (d ++ r)) ∧
    ((∀ below target, fs.entry (d ++ below) ≠ some (.symlink target)) → Spelled fs dir r (d ++ r) →
      Unreserved r) ∧
    ∀ conn : Conn A, (new urlPrefix dir).Outside conn → (new urlPrefix dir).call blake3 fs conn = (conn, none) := by
  have hroot : (∃ c ∈ urlPrefix.toList, c ≠ '/') ↔ (new urlPrefix dir).urlPrefix ≠ "/" := by
    rw [Ne, urlPrefix_root_iff]
    push Not
    rfl
  refine ⟨⟨fun h => ?_, fun h conn hrequest => ?_⟩, spelled_of_unreserved hdir hr hfile,
    unreserved_of_spelled hdir hr hfile, fun conn houtside => outside_unchanged houtside fs⟩
  · let conn : Conn A := .new .get
      { path := String.ofList (requestPath (new urlPrefix dir).urlPrefix r), query := none }
    have hrequest : (new urlPrefix dir).Requests conn r := ⟨rfl, String.toList_ofList⟩
    rw [hroot]
    exact spelled_of_answered hrequest rfl hr hfile (h conn hrequest)
  · exact answered_of_isFor (isFor_of_requests hrequest hr hfile hdir (hroot.mp h.1) h.2) hfile

theorem reachable_iff_script :
    ((∀ conn : Conn Unit, (new "static" (pathOf "/srv".toList)).Requests conn [asBytes "app.js"] →
        Answered (fun _ => []) (new "static" (pathOf "/srv".toList)) linkedTree conn
          ([asBytes "srv"] ++ [asBytes "app.js"])) ↔
      (∃ c ∈ "static".toList, c ≠ '/') ∧
        Spelled linkedTree (pathOf "/srv".toList) [asBytes "app.js"] ([asBytes "srv"] ++ [asBytes "app.js"])) ∧
    (Unreserved [asBytes "app.js"] →
      Spelled linkedTree (pathOf "/srv".toList) [asBytes "app.js"] ([asBytes "srv"] ++ [asBytes "app.js"])) ∧
    ((∀ below target, linkedTree.entry ([asBytes "srv"] ++ below) ≠ some (.symlink target)) →
      Spelled linkedTree (pathOf "/srv".toList) [asBytes "app.js"] ([asBytes "srv"] ++ [asBytes "app.js"]) →
        Unreserved [asBytes "app.js"]) ∧
    ∀ conn : Conn Unit, (new "static" (pathOf "/srv".toList)).Outside conn →
      (new "static" (pathOf "/srv".toList)).call (fun _ => []) linkedTree conn = (conn, none) :=
  reachable_iff (fun _ => []) "static" (by decide +kernel) (by decide)
    (show linkedTree.entry _ = some (.file (some (asBytes "run()"))) by decide +kernel)

/-- Under the root the script is not found. -/
theorem root_unreached : ¬ ∀ (urlPrefix : String) (dir : Path) (fs : Tree) (d r : Location)
    (contents : List UInt8), fs.canonicalize dir = some d → r ≠ [] →
    fs.entry (d ++ r) = some (.file (some contents)) → ∀ conn : Conn Unit,
    (new urlPrefix dir).Requests conn r → Answered (fun _ => []) (new urlPrefix dir) fs conn (d ++ r) := by
  intro h
  obtain ⟨answer, served, hcall, _⟩ := h "/" (pathOf "/srv".toList) linkedTree [asBytes "srv"] [asBytes "app.js"]
    (asBytes "run()") (by decide +kernel) (by decide) (by decide +kernel)
    (.new .get { path := "/app.js", query := none }) ⟨rfl, by decide⟩
  have hnone : ((new "/" (pathOf "/srv".toList)).call (fun _ => []) linkedTree
      (.new (A := Unit) .get { path := "/app.js", query := none })).2 = none := by
    decide +kernel
  rw [hcall] at hnone
  simp at hnone

end Mahalo.StaticFiles
