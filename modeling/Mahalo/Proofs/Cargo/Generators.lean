/-
Runs of the generators, from a project that `new` has made.

A call that finds the web crate with the files of a registry leaves it with those of
the registry's answer, or the file system failed it.  From this a whole run follows
call by call.  `new` itself, where it gets to its end, has made each directory before
the files in it, and the web crate it leaves has the files of the empty registry; it
is the one that is found, wherever `read_dir` lists it, if the name of the project
does not itself end as the names of web crates do.
-/
import Mahalo.Proofs.Cargo.Registry

namespace Mahalo.Cargo

open RustStd LetterCase Occurrences TextLines

variable {t : Tables}

/-! ### Commands that fail -/

section

variable {writable : Text → Bool} {files files' : Files} {path name : Text} {e : Error}

theorem bind_error {α β : Type} {x : Command α} {f : α → Command β} (h : (x >>= f) files = .error e files') :
    x files = .error e files' ∨ ∃ a mid, x files = .ok a mid ∧ f a mid = .error e files' := by
  change EStateM.bind x f files = _ at h
  unfold EStateM.bind at h
  cases hx : x files with
  | ok a mid =>
      rw [hx] at h
      exact Or.inr ⟨a, mid, rfl, h⟩
  | error e' mid =>
      rw [hx] at h
      cases h
      exact Or.inl rfl

theorem readToString_error (h : readToString path files = .error e files') : e = .io := by
  unfold readToString at h
  split at h <;> cases h
  rfl

theorem write_error {content : Text} (h : write writable path content files = .error e files') : e = .io := by
  unfold write at h
  split at h <;> cases h
  rfl

theorem injectModule_error (h : injectModule writable path name files = .error e files') : e = .io := by
  unfold injectModule at h
  obtain h | ⟨content, mid, -, h⟩ := bind_error h
  · exact readToString_error h
  · dsimp only at h
    split at h
    · cases h
    · exact write_error h

theorem injectRouter_error {importLine routeLine snake : Text}
    (h : injectRouter writable path importLine routeLine snake files = .error e files') : e = .io := by
  unfold injectRouter at h
  obtain h | ⟨content, mid, -, h⟩ := bind_error h
  · exact readToString_error h
  · split at h
    · cases h
    split at h
    · cases h
    · exact write_error h

/-- A command ends with this outcome and these files, or the file system failed it. -/
def Follows (x : EStateM.Result Error Files Unit) (outcome : Except Error Unit) (files : Files) : Prop :=
  (match outcome with
    | .ok _ => x = .ok () files
    | .error e => x = .error e files) ∨ ∃ files', x = .error .io files'

theorem follows_ok {x : EStateM.Result Error Files Unit} (hok : ∀ files', x = .ok () files' → files' = files)
    (herror : ∀ e files', x = .error e files' → e = .io) : Follows x (.ok ()) files := by
  cases x with
  | ok u files' => exact Or.inl (by rw [hok files' rfl])
  | error e files' =>
      obtain rfl := herror e files' rfl
      exact Or.inr ⟨files', rfl⟩

theorem Follows.bind {x y : Command Unit} {mid : Files} {outcome : Except Error Unit}
    (hx : Follows (x files) (.ok ()) mid) (hy : Follows (y mid) outcome files') :
    Follows ((x >>= fun _ => y) files) outcome files' := by
  change Follows (EStateM.bind x (fun _ => y) files) outcome files'
  unfold EStateM.bind
  obtain hx | ⟨failed, hx⟩ := hx
  · rw [hx]
    exact hy
  · rw [hx]
    exact Or.inr ⟨failed, rfl⟩

theorem Follows.bind_error {x y : Command Unit} {mid : Files} (hx : Follows (x files) (.error e) mid) :
    Follows ((x >>= fun _ => y) files) (.error e) mid := by
  change Follows (EStateM.bind x (fun _ => y) files) (.error e) mid
  unfold EStateM.bind
  obtain hx | ⟨failed, hx⟩ := hx
  · rw [hx]
    exact Or.inl rfl
  · rw [hx]
    exact Or.inr ⟨failed, rfl⟩

end

namespace Registry

variable {r : Registry} {kind : Kind} {name webCrate : Text} {scaffold : Files} {writable : Text → Bool}

theorem files_routerPath : r.files t scaffold routerPath = some (r.routerText t) := if_pos rfl

theorem files_modPath (kind : Kind) : r.files t scaffold (modPath kind) = some (r.modText t kind) := by
  unfold files
  rw [if_neg (modPath_ne_routerPath kind)]
  cases kind
  · rw [if_pos rfl]
  · rw [if_neg (by decide), if_pos rfl]

theorem files_other {path : Text} (hrouter : path ≠ routerPath) (hmod : ∀ kind, path ≠ modPath kind) :
    r.files t scaffold path =
      ((r.generated.find? fun g => decide (filePath g.1 (snakeOf t g.2) = path)).map fun g =>
        fileText t g.1 g.2).or (scaffold path) := by
  unfold files
  rw [if_neg hrouter, if_neg (hmod .controller), if_neg (hmod .channel)]

theorem find_filePath (kind : Kind) (name : Text) :
    (r.generated.find? fun g => decide (filePath g.1 (snakeOf t g.2) = filePath kind (snakeOf t name))).isSome
      = r.has t kind name := by
  unfold has
  rw [Bool.eq_iff_iff, List.find?_isSome, List.any_eq_true]
  simp only [filePath_inj, decide_eq_true_eq, Bool.and_eq_true]

theorem files_filePath (hs : scaffold (filePath kind (snakeOf t name)) = none) :
    (r.files t scaffold (filePath kind (snakeOf t name))).isSome = r.has t kind name := by
  rw [files_other (filePath_ne_routerPath kind _) (fun kind' => filePath_ne_modPath kind kind' _), ← find_filePath]
  cases r.generated.find? _ with
  | none => rw [hs]; rfl
  | some g => rfl

/-- A new file and its line in `mod.rs` are what the registry gains. -/
theorem files_add (hnew : r.has t kind name = false) :
    ((r.files t scaffold).write (filePath kind (snakeOf t name)) (fileText t kind name)).write (modPath kind)
      ((r.add kind name).modText t kind) = (r.add kind name).files t scaffold := by
  have hfind := find_filePath (t := t) (r := r) kind name
  rw [hnew, Option.isSome_eq_false_iff, Option.isNone_iff_eq_none] at hfind
  funext path
  by_cases hrouter : path = routerPath
  · rw [hrouter, Files.write_other (modPath_ne_routerPath kind).symm,
      Files.write_other (filePath_ne_routerPath kind _).symm, files_routerPath, files_routerPath]
    rfl
  by_cases hmod : ∃ kind', path = modPath kind'
  · obtain ⟨kind', rfl⟩ := hmod
    rw [files_modPath]
    by_cases hkind : kind' = kind
    · rw [hkind, Files.write_path]
    · have hne : modPath kind' ≠ modPath kind := by cases kind <;> cases kind' <;> first | contradiction | decide
      rw [Files.write_other hne, Files.write_other (filePath_ne_modPath kind kind' _).symm, files_modPath]
      unfold modText
      rw [moduleLines_add_of_ne (Ne.symm hkind)]
  · rw [not_exists] at hmod
    rw [Files.write_other (hmod kind), files_other hrouter hmod]
    unfold add
    rw [List.find?_append]
    by_cases hpath : path = filePath kind (snakeOf t name)
    · rw [hpath, Files.write_path, hfind]
      simp
    · rw [Files.write_other hpath, files_other hrouter hmod]
      cases r.generated.find? _ with
      | none => simp [Ne.symm hpath]
      | some g => rfl

theorem route_generated : (r.route t name).generated = r.generated := by
  unfold route
  split <;> rfl

theorem files_route :
    (r.files t scaffold).write routerPath ((r.route t name).routerText t) = (r.route t name).files t scaffold := by
  funext path
  by_cases hrouter : path = routerPath
  · rw [hrouter, Files.write_path, files_routerPath]
  · rw [Files.write_other hrouter]
    unfold files modText moduleLines
    rw [if_neg hrouter, if_neg hrouter, route_generated]

/-! ### One command -/

/-- A file of its kind, for a name. -/
def generateFile (t : Tables) (writable : Text → Bool) (webCrate : Text) (kind : Kind) (name : Text) :
    Command Unit :=
  addFile writable kind.dir kind.word kind.label webCrate (snakeOf t name) (fileText t kind name)

/-- What that makes of the files of a registry. -/
theorem generateFile_follows (hr : r.Plain t) (hname : PlainName (snakeOf t name))
    (hs : scaffold (filePath kind (snakeOf t name)) = none) :
    Follows (generateFile t writable webCrate kind name (r.files t scaffold))
      (r.answerFile t webCrate kind name).1 ((r.answerFile t webCrate kind name).2.files t scaffold) := by
  unfold answerFile generateFile
  rw [addFile_eq, files_filePath hs]
  by_cases hhas : r.has t kind name = true
  · rw [if_pos hhas, if_pos hhas]
    exact Or.inl rfl
  · rw [if_neg hhas, if_neg hhas]
    have hnew : r.has t kind name = false := Bool.eq_false_iff.mpr hhas
    refine follows_ok (fun files' hok => ?_) fun e files' herror => ?_
    · obtain ⟨_, mid, hwrite, hmodule⟩ := bind_ok hok
      obtain rfl := write_ok hwrite
      obtain ⟨content, hcontent, rfl⟩ := injectModule_ok hmodule
      rw [Files.write_other (filePath_ne_modPath kind kind _).symm, files_modPath] at hcontent
      obtain rfl := Option.some.inj hcontent
      have hline := withModule_modText hr hname hnew
      unfold moduleLine at hline
      rw [hline]
      exact files_add hnew
    · obtain herror | ⟨_, mid, -, herror⟩ := bind_error herror
      · exact write_error herror
      · exact injectModule_error herror

theorem injectRouter_follows (hr : r.Plain t) (hname : PlainForms (snakeOf t name) (normalizeName t name).2) :
    Follows (injectRouter writable routerPath (importOf t name) (routeOf t name) (snakeOf t name)
      (r.files t scaffold)) (.ok ()) ((r.route t name).files t scaffold) := by
  refine follows_ok (fun files' hok => ?_) fun e files' => injectRouter_error
  obtain ⟨content, hcontent, rfl⟩ := injectRouter_ok hok
  rw [files_routerPath] at hcontent
  obtain rfl := Option.some.inj hcontent
  rw [withRoute_routerText hr hname, files_route]

theorem Plain.add (hr : r.Plain t) (hname : PlainForms (snakeOf t name) (normalizeName t name).2) :
    (r.add kind name).Plain t where
  generated := List.forall_mem_append.mpr ⟨hr.generated, List.forall_mem_singleton.mpr hname⟩
  routed := hr.routed

theorem Plain.route (hr : r.Plain t) (hname : PlainForms (snakeOf t name) (normalizeName t name).2) :
    (r.route t name).Plain t := by
  unfold Registry.route
  split
  · exact hr
  · exact ⟨hr.generated, List.forall_mem_append.mpr ⟨hr.routed, List.forall_mem_singleton.mpr hname⟩⟩

theorem Distinct.add (hr : r.Distinct t) (hnew : r.has t kind name = false) : (r.add kind name).Distinct t where
  files := by
    unfold Registry.add
    rw [List.map_append, List.map_singleton, ← List.concat_eq_append, List.nodup_concat]
    refine ⟨fun hmem => ?_, hr.files⟩
    obtain ⟨⟨kind', other⟩, hother, heq⟩ := List.mem_map.mp hmem
    obtain ⟨rfl, hsnake⟩ := Prod.mk.inj heq
    rw [has_iff.mpr ⟨other, hother, hsnake⟩] at hnew
    cases hnew
  routed := by
    unfold Registry.add
    rw [List.filter_append, List.map_append]
    exact hr.routed.trans (List.sublist_append_left _ _)

theorem Distinct.route (hr : r.Distinct t) (hnew : r.has t .controller name = false) :
    ((r.add .controller name).route t name).Distinct t where
  files := by
    rw [route_generated]
    exact (hr.add hnew).files
  routed := by
    rw [route_generated]
    unfold Registry.route Registry.add
    rw [List.filter_append, List.map_append]
    split
    · exact hr.routed.trans (List.sublist_append_left _ _)
    · exact hr.routed.append (List.Sublist.refl _)

/-- The command of a call, as it runs in the web crate. -/
def command (t : Tables) (writable : Text → Bool) (webCrate : Text) : Generate → Command Unit
  | .controller name => generateFile t writable webCrate .controller name
  | .channel name => generateFile t writable webCrate .channel name
  | .resource name =>
      generateFile t writable webCrate .controller name >>= fun _ =>
        injectRouter writable routerPath (importOf t name) (routeOf t name) (snakeOf t name)

theorem run_eq (call : Generate) (p : Project) :
    call.run t writable p = p.inWebCrate fun webCrate => command t writable webCrate call := by
  cases call <;> rfl

/-- What one call makes of the files of a registry. -/
theorem command_follows (hr : r.Plain t) (call : Generate)
    (hname : PlainForms (snakeOf t call.name) (normalizeName t call.name).2)
    (hs : ∀ kind snake, scaffold (filePath kind snake) = none) :
    Follows (command t writable webCrate call (r.files t scaffold)) (r.answer t webCrate call).1
      ((r.answer t webCrate call).2.files t scaffold) := by
  cases call with
  | controller name => exact generateFile_follows hr hname.plainSnake (hs _ _)
  | channel name => exact generateFile_follows hr hname.plainSnake (hs _ _)
  | resource name =>
      have hfile : Follows (generateFile t writable webCrate .controller name (r.files t scaffold)) _ _ :=
        generateFile_follows hr hname.plainSnake (hs .controller (snakeOf t name))
      unfold answerFile at hfile
      rw [command, answer]
      by_cases hhas : r.has t .controller name = true
      · rw [if_pos hhas] at hfile ⊢
        exact hfile.bind_error
      · rw [if_neg hhas] at hfile ⊢
        exact hfile.bind (injectRouter_follows (hr.add hname) hname)

theorem answer_keeps (webCrate : Text) (hr : r.Plain t) (hd : r.Distinct t) (call : Generate)
    (hname : PlainForms (snakeOf t call.name) (normalizeName t call.name).2) :
    (r.answer t webCrate call).2.Plain t ∧ (r.answer t webCrate call).2.Distinct t := by
  have hfile : ∀ kind, (r.answerFile t webCrate kind call.name).2.Plain t ∧
      (r.answerFile t webCrate kind call.name).2.Distinct t := by
    intro kind
    unfold answerFile
    by_cases hhas : r.has t kind call.name = true
    · rw [if_pos hhas]
      exact ⟨hr, hd⟩
    · rw [if_neg hhas]
      exact ⟨hr.add hname, hd.add (Bool.eq_false_iff.mpr hhas)⟩
  cases call with
  | controller name => exact hfile .controller
  | channel name => exact hfile .channel
  | resource name =>
      rw [answer]
      by_cases hhas : r.has t .controller name = true
      · rw [if_pos hhas]
        exact ⟨hr, hd⟩
      · rw [if_neg hhas]
        exact ⟨(hr.add hname).route hname, hd.route (Bool.eq_false_iff.mpr hhas)⟩

end Registry

/-! ### A run -/

section

variable {p p' : Project} {entries : List Entry} {i : Nat} {crateName : Text} {files files' : Files}

theorem WebCrate.follows (h : WebCrate p entries i crateName files) {command : Text → Command Unit}
    {outcome : Except Error Unit} (hf : Follows (command ("crates/".toList ++ crateName) files) outcome files')
    (hio : (p.inWebCrate command).1 ≠ .error .io) :
    p.inWebCrate command = (outcome, withWebFiles entries i crateName files') := by
  rw [h.inWebCrate] at hio ⊢
  obtain hf | ⟨failed, hf⟩ := hf
  · cases outcome with
    | ok u => rw [hf]
    | error e => rw [hf]
  · rw [hf] at hio
    exact absurd rfl hio

/-- **The run lemma**, call by call from any registry. -/
theorem generateAll_answers {r : Registry} {scaffold : Files} (hdoc : Documented t)
    (hs : ∀ kind snake, scaffold (filePath kind snake) = none) {calls : List (Generate × (Text → Bool))}
    (hplain : ∀ call ∈ calls, PlainName call.1.name) :
    ∀ {p : Project} {entries : List Entry}, WebCrate p entries i crateName (r.files t scaffold) →
      r.Plain t → r.Distinct t →
      .error .io ∉ (generateAll t p calls).1 →
      generateAll t p calls = ((r.answerAll t ("crates/".toList ++ crateName) (calls.map (·.1))).1,
        withWebFiles entries i crateName
          ((r.answerAll t ("crates/".toList ++ crateName) (calls.map (·.1))).2.files t scaffold)) ∧
      (r.answerAll t ("crates/".toList ++ crateName) (calls.map (·.1))).2.Distinct t := by
  induction calls generalizing r with
  | nil =>
      intro p entries hcrate _ hd _
      exact ⟨Prod.ext rfl hcrate.unchanged.symm, hd⟩
  | cons call rest ih =>
      intro p entries hcrate hr hd hio
      obtain ⟨call, writable⟩ := call
      obtain ⟨hcall, hrest⟩ := List.forall_mem_cons.mp hplain
      have hname := plainForms hdoc hcall
      have hio' : (call.run t writable p).1 ≠ .error .io := by
        intro h
        exact hio (by rw [generateAll, ← h]; exact List.mem_cons_self ..)
      rw [Registry.run_eq] at hio'
      have hrun := hcrate.follows (Registry.command_follows hr call hname hs) hio'
      rw [← Registry.run_eq] at hrun
      obtain ⟨hr', hd'⟩ := Registry.answer_keeps ("crates/".toList ++ crateName) hr hd call hname
      rw [generateAll, hrun] at hio
      obtain ⟨hall, hdistinct⟩ := ih hrest (hcrate.change _) hr' hd' fun h => hio (List.mem_cons_of_mem _ h)
      refine ⟨?_, hdistinct⟩
      rw [generateAll, hrun]
      dsimp only [List.map_cons, Registry.answerAll]
      rw [hall]
      unfold withWebFiles
      rw [List.set_set]
      rfl

end

/-! ### A new project -/

section

variable {creatable writable : Text → Bool} {d d' root : Directory} {name path : Text}

theorem createDir_ok (h : createDir creatable path d = .ok () d') :
    d'.files = d.files ∧ ∀ q, q ∈ d'.dirs ↔ q ∈ d.dirs ∨ q = path := by
  unfold createDir at h
  split at h
  · rename_i hthere
    cases h
    refine ⟨rfl, fun q => ⟨Or.inl, ?_⟩⟩
    rintro (hq | rfl)
    · exact hq
    · simpa using hthere
  split at h
  · cases h
    exact ⟨rfl, fun q => by simp⟩
  · cases h

theorem createDirs_ok {paths : List Text} (h : paths.forM (createDir creatable) d = .ok () d') :
    d'.files = d.files ∧ ∀ q, q ∈ d'.dirs ↔ q ∈ d.dirs ∨ q ∈ paths := by
  induction paths generalizing d with
  | nil =>
      cases h
      exact ⟨rfl, fun q => by simp⟩
  | cons path paths ih =>
      obtain ⟨_, mid, hfirst, hrest⟩ := bind_ok h
      obtain ⟨hfiles, hdirs⟩ := createDir_ok hfirst
      obtain ⟨hfiles', hdirs'⟩ := ih hrest
      exact ⟨hfiles'.trans hfiles, fun q => by rw [hdirs', hdirs, List.mem_cons, or_assoc]⟩

theorem createEach_ok {paths : List Text} (h : paths.forM (createDirAll creatable) d = .ok () d') :
    d'.files = d.files ∧ ∀ q, q ∈ d'.dirs ↔ q ∈ d.dirs ∨ ∃ path ∈ paths, q ∈ wayTo path := by
  induction paths generalizing d with
  | nil =>
      cases h
      exact ⟨rfl, fun q => by simp⟩
  | cons path paths ih =>
      obtain ⟨_, mid, hfirst, hrest⟩ := bind_ok h
      obtain ⟨hfiles, hdirs⟩ := createDirs_ok hfirst
      obtain ⟨hfiles', hdirs'⟩ := ih hrest
      exact ⟨hfiles'.trans hfiles, fun q => by rw [hdirs', hdirs, List.exists_mem_cons_iff, or_assoc]⟩

theorem writeFile_ok {content : Text} (h : writeFile writable path content d = .ok () d') :
    d'.dirs = d.dirs ∧ d'.read = Files.write d.read path content := by
  unfold writeFile at h
  split at h
  · cases h
    refine ⟨rfl, funext fun q => ?_⟩
    unfold Directory.read Files.write
    rw [List.find?_append]
    by_cases hq : q = path
    · have hgone : (d.files.filter fun file => file.1 != path).find? (fun file => file.1 == q) = none := by
        simp [List.find?_eq_none, hq]
      rw [if_pos hq, hgone, hq]
      simp
    · have hsame : (d.files.filter fun file => file.1 != path).find? (fun file => file.1 == q)
          = d.files.find? fun file => file.1 == q := by
        simp only [List.find?_filter]
        congr 1
        funext file
        by_cases hfile : file.1 = q <;> simp [hfile, hq]
      have hlast : [(path, content)].find? (fun file => file.1 == q) = none := by simp [Ne.symm hq]
      rw [if_neg hq, hsame, hlast, Option.or_none]
  · cases h

/-- The files, written one after another. -/
def written (read : Files) (files : List (Text × Text)) : Files :=
  files.foldl (fun read file => read.write file.1 file.2) read

theorem writeEach_ok {files : List (Text × Text)}
    (h : (files.forM fun (path, content) => writeFile writable path content) d = .ok () d') :
    d'.dirs = d.dirs ∧ d'.read = written d.read files := by
  induction files generalizing d with
  | nil =>
      cases h
      exact ⟨rfl, rfl⟩
  | cons file files ih =>
      obtain ⟨_, mid, hfirst, hrest⟩ := bind_ok h
      obtain ⟨hdirs, hread⟩ := writeFile_ok hfirst
      obtain ⟨hdirs', hread'⟩ := ih hrest
      exact ⟨hdirs'.trans hdirs, hread'.trans (by rw [hread]; rfl)⟩

/-- What `new` leaves, where there was nothing. -/
theorem new_ok (h : new creatable writable name .absent = .ok () root) :
    (∀ q, q ∈ root.dirs ↔ ∃ path ∈ newDirs name, q ∈ wayTo path) ∧
      root.read = written (fun _ => none) (newFiles name) := by
  replace h : ((newDirs name).forM (createDirAll creatable) >>= fun _ =>
    (newFiles name).forM fun (path, content) => writeFile writable path content) .absent = .ok () root := h
  obtain ⟨_, made, hdirs, hfiles⟩ := bind_ok h
  obtain ⟨hnothing, hdirs⟩ := createEach_ok hdirs
  obtain ⟨hsame, hread⟩ := writeEach_ok hfiles
  refine ⟨fun q => ?_, hread.trans ?_⟩
  · rw [hsame, hdirs]
    simp [Directory.absent]
  · congr 1
    unfold Directory.read
    rw [hnothing]
    rfl

/-! ### What is found in it -/

theorem named_joined {names : List Text} (h : ∀ n ∈ names, '/' ∉ n) (hne : names ≠ []) :
    named (joined names) = names := by
  unfold named joined
  rw [split_eq_splitOn, List.splitOn_intercalate '/' h hne]

/-- A directory in `crates` that lies on a way is the second on it. -/
theorem mem_wayTo {names : List Text} {n : Text} (h : ∀ n ∈ names, '/' ∉ n) (hne : names ≠ []) (hn : '/' ∉ n) :
    joined ["crates".toList, n] ∈ wayTo (joined names) ↔ ["crates".toList, n] <+: names := by
  have hpath : named (joined ["crates".toList, n]) = ["crates".toList, n] :=
    named_joined (List.forall_mem_cons.mpr ⟨by decide, List.forall_mem_singleton.mpr hn⟩) (List.cons_ne_nil _ _)
  unfold wayTo
  rw [named_joined h hne, List.mem_map]
  constructor
  · rintro ⟨front, hfront, heq⟩
    have hpre := (List.mem_inits front names).mp hfront
    rw [← heq] at hpath
    by_cases hnil : front = []
    · rw [hnil] at hpath
      cases hpath
    · rwa [← hpath, named_joined (fun n hn => h n (hpre.subset hn)) hnil]
  · exact fun hpre => ⟨_, (List.mem_inits _ _).mpr hpre, rfl⟩

/-- A name for a directory of its own, and for a project whose web crate is the only one that
is found. -/
structure ProjectName (name : Text) : Prop where
  nonempty : name ≠ []
  noSlash : '/' ∉ name
  notWeb : ¬"_web".toList <:+ name

theorem mem_dirs_iff (hname : '/' ∉ name) (h : new creatable writable name .absent = .ok () root) {n : Text}
    (hn : '/' ∉ n) : "crates/".toList ++ n ∈ root.dirs ↔
      n = name ∨ n = name ++ "_models".toList ∨ n = name ++ "_web".toList := by
  have hpath : "crates/".toList ++ n = joined ["crates".toList, n] := by
    simp [joined, List.intercalate]
  have hparts : ∀ {crate : Text} {rest : List Text}, '/' ∉ crate → (∀ part ∈ rest, '/' ∉ part) →
      ∀ part ∈ "crates".toList :: crate :: rest, '/' ∉ part := fun hcrate hrest =>
    List.forall_mem_cons.mpr ⟨by decide, List.forall_mem_cons.mpr ⟨hcrate, hrest⟩⟩
  have hmodels : '/' ∉ name ++ "_models".toList := by simp [hname]
  have hweb : '/' ∉ name ++ "_web".toList := by simp [hname]
  have hsecond : ∀ {crate : Text} {rest : List Text},
      ["crates".toList, n] <+: "crates".toList :: crate :: rest ↔ n = crate := fun {crate rest} => by simp
  rw [hpath, (new_ok h).1]
  unfold newDirs
  simp only [List.exists_mem_cons_iff, List.not_mem_nil, false_and, exists_false, or_false]
  rw [mem_wayTo (hparts hname (by decide)) (List.cons_ne_nil _ _) hn,
    mem_wayTo (hparts hmodels (by decide)) (List.cons_ne_nil _ _) hn,
    mem_wayTo (hparts hweb (by decide)) (List.cons_ne_nil _ _) hn,
    mem_wayTo (hparts hweb (by decide)) (List.cons_ne_nil _ _) hn, hsecond, hsecond, hsecond, hsecond, or_self_iff]

theorem crates_made (hname : '/' ∉ name) (h : new creatable writable name .absent = .ok () root) :
    "crates".toList ∈ root.dirs := by
  rw [(new_ok h).1]
  refine ⟨_, List.mem_cons_self .., ?_⟩
  have hpath : "crates".toList = joined ["crates".toList] := by simp [joined, List.intercalate]
  unfold wayTo
  rw [named_joined (List.forall_mem_cons.mpr ⟨by decide, List.forall_mem_cons.mpr ⟨hname, by decide⟩⟩)
    (List.cons_ne_nil _ _), hpath]
  exact List.mem_map_of_mem ((List.mem_inits _ _).mpr (List.cons_prefix_cons.mpr ⟨rfl, List.nil_prefix⟩))

/-- A file of the web crate, from the directory of the project. -/
def webFile (name path : Text) : Text := "crates/".toList ++ (name ++ "_web".toList) ++ "/".toList ++ path

theorem path_eq_iff {rest : Text} :
    "crates/".toList ++ name ++ rest = webFile name path ↔ rest = "_web/".toList ++ path := by
  unfold webFile
  simp only [List.append_assoc, List.append_cancel_left_eq]
  rfl

theorem written_of_not_mem {read : Files} {files : List (Text × Text)} (h : ∀ file ∈ files, file.1 ≠ path) :
    written read files path = read path := by
  induction files generalizing read with
  | nil => rfl
  | cons file files ih =>
      obtain ⟨hfile, hfiles⟩ := List.forall_mem_cons.mp h
      exact (ih hfiles).trans (Files.write_other (Ne.symm hfile))

/-- The last file that was written to a path is what is read. -/
theorem written_last {read : Files} {before after : List (Text × Text)} {content : Text}
    (h : ∀ file ∈ after, file.1 ≠ path) :
    written read (before ++ (path, content) :: after) path = some content := by
  unfold written
  rw [List.foldl_append]
  exact (written_of_not_mem h).trans Files.write_path

/-- What the paths of `newFiles` in `crates` have behind the name. -/
def newRests : List Text :=
  ["/Cargo.toml".toList, "/src/main.rs".toList, "_models/Cargo.toml".toList, "_models/src/lib.rs".toList,
    "_web/Cargo.toml".toList, "_web/src/lib.rs".toList, "_web/src/router.rs".toList,
    "_web/src/controllers/mod.rs".toList, "_web/src/channels/mod.rs".toList]

theorem newFiles_paths (name : Text) : (newFiles name).map (·.1)
    = "Cargo.toml".toList :: newRests.map fun rest => "crates/".toList ++ name ++ rest := rfl

theorem newFiles_path {file : Text × Text} (h : file ∈ newFiles name) :
    file.1 = "Cargo.toml".toList ∨ ∃ rest ∈ newRests, "crates/".toList ++ name ++ rest = file.1 := by
  have hpath : file.1 ∈ (newFiles name).map (·.1) := List.mem_map_of_mem h
  rwa [newFiles_paths, List.mem_cons, List.mem_map] at hpath

theorem newFiles_eq (name : Text) : ∃ before router controllers channels,
    newFiles name = before ++ [router, controllers, channels] ∧
      router = (webFile name routerPath, webRouterRs) ∧
      controllers = (webFile name (modPath .controller), controllersModRs) ∧
      channels = (webFile name (modPath .channel), channelsModRs) :=
  ⟨(newFiles name).take 7, _, _, _, rfl, Prod.ext (path_eq_iff.mpr rfl) rfl, Prod.ext (path_eq_iff.mpr rfl) rfl,
    Prod.ext (path_eq_iff.mpr rfl) rfl⟩

theorem webFile_inj {path' : Text} : webFile name path = webFile name path' ↔ path = path' := by
  unfold webFile
  exact List.append_right_inj _

theorem written_router : written (fun _ => none) (newFiles name) (webFile name routerPath) = some webRouterRs := by
  obtain ⟨before, _, _, _, hfiles, rfl, rfl, rfl⟩ := newFiles_eq name
  rw [hfiles]
  refine written_last (List.forall_mem_cons.mpr ⟨fun h => ?_, List.forall_mem_singleton.mpr fun h => ?_⟩)
  · exact absurd (webFile_inj.mp h) (by decide)
  · exact absurd (webFile_inj.mp h) (by decide)

theorem written_modules (kind : Kind) :
    written (fun _ => none) (newFiles name) (webFile name (modPath kind)) = some controllersModRs := by
  obtain ⟨before, _, _, _, hfiles, rfl, rfl, rfl⟩ := newFiles_eq name
  rw [hfiles, List.append_cons]
  cases kind with
  | controller => exact written_last (List.forall_mem_singleton.mpr fun h => absurd (webFile_inj.mp h) (by decide))
  | channel =>
      rw [List.append_cons]
      exact written_last (List.forall_mem_nil _)

theorem written_fresh (kind : Kind) (snake : Text) :
    written (fun _ => none) (newFiles name) (webFile name (filePath kind snake)) = none := by
  refine written_of_not_mem fun file hfile => ?_
  have hlong := filePath_long kind snake
  obtain hpath | ⟨rest, hrest, hpath⟩ := newFiles_path hfile
  · intro heq
    have hle : (filePath kind snake).length ≤ (webFile name (filePath kind snake)).length :=
      (List.suffix_append _ _).length_le
    rw [← heq, hpath] at hle
    exact absurd (hlong.trans hle) (by decide)
  · rw [← hpath]
    intro heq
    have hshort : ∀ rest ∈ newRests, rest.length < 5 + 24 := by decide
    have hlength : rest.length = 5 + (filePath kind snake).length := by
      rw [path_eq_iff.mp heq, List.length_append]
      rfl
    have := hshort rest hrest
    omega

/-- What of the web crate no generator touches, as `new` left it. -/
def scaffold (root : Directory) (name : Text) : Files := fun path => root.read (webFile name path)

theorem scaffold_fresh (h : new creatable writable name .absent = .ok () root) (kind : Kind) (snake : Text) :
    scaffold root name (filePath kind snake) = none := by
  unfold scaffold
  rw [(new_ok h).2]
  exact written_fresh kind snake

/-- The router that a project begins with is that of the empty registry. -/
theorem routerText_empty (t : Tables) : Registry.empty.routerText t = webRouterRs := by
  have hlines : Registry.empty.routerText t = unlines '\n' (Registry.routerHead ++ importsMarker ::
      (Registry.routerMiddle ++ (Registry.routerIndent ++ routesMarker) :: Registry.routerTail)) := rfl
  rw [hlines]
  decide +kernel

theorem not_models_web (name : Text) : ¬"_web".toList <:+ name ++ "_models".toList := by
  intro hends
  have hlast : "web".toList <:+ "els".toList := List.suffix_of_suffix_length_le
    ((by decide : "web".toList <:+ "_web".toList).trans hends)
    ((by decide : "els".toList <:+ "_models".toList).trans (List.suffix_append _ _)) (by decide)
  exact absurd hlast (by decide)

/-- The new web crate has the files of the empty registry. -/
theorem entry_web (t : Tables) (hname : '/' ∉ name) (h : new creatable writable name .absent = .ok () root) :
    root.entry (name ++ "_web".toList)
      = { name := name ++ "_web".toList, files := some (Registry.empty.files t (scaffold root name)) } := by
  have hweb : '/' ∉ name ++ "_web".toList := by simp [hname]
  have hdir : root.dirs.contains ("crates/".toList ++ (name ++ "_web".toList)) = true :=
    List.contains_iff_mem.mpr ((mem_dirs_iff hname h hweb).mpr (Or.inr (Or.inr rfl)))
  unfold Directory.entry
  rw [if_pos hdir]
  refine congrArg (fun files => Entry.mk (name ++ "_web".toList) (some files)) (funext fun path => ?_)
  change root.read (webFile name path) = _
  by_cases hrouter : path = routerPath
  · rw [hrouter, (new_ok h).2, written_router, Registry.files_routerPath, routerText_empty]
  by_cases hmod : ∃ kind, path = modPath kind
  · obtain ⟨kind, rfl⟩ := hmod
    rw [(new_ok h).2, written_modules, Registry.files_modPath]
    rfl
  · rw [Registry.files_other hrouter (not_exists.mp hmod)]
    rfl

/-- The project with the files of a registry in its web crate, and all else as `new` left it. -/
def projectOf (t : Tables) (root : Directory) (listing : List Text) (name : Text) (r : Registry) : Project where
  crates := some (listing.map fun n =>
    if n = name ++ "_web".toList then { name := n, files := some (r.files t (scaffold root name)) }
    else root.entry n)

variable {listing : List Text}

theorem exists_webCrate_new (t : Tables) (hname : ProjectName name)
    (h : new creatable writable name .absent = .ok () root) (hlist : root.Lists "crates".toList listing) :
    ∃ i, ∃ hi : i < listing.length, listing[i] = name ++ "_web".toList ∧
      WebCrate (root.project listing) (listing.map root.entry) i (name ++ "_web".toList)
        (Registry.empty.files t (scaffold root name)) := by
  have hweb : '/' ∉ name ++ "_web".toList := by simp [hname.noSlash]
  have hcrates : (root.project listing).crates = some (listing.map root.entry) :=
    if_pos (List.contains_iff_mem.mpr (crates_made hname.noSlash h))
  have hlisted : name ++ "_web".toList ∈ listing := by
    refine (hlist.mem_iff _).mpr ⟨by simp, hweb, Bool.or_eq_true_iff.mpr (Or.inl ?_)⟩
    exact List.contains_iff_mem.mpr ((mem_dirs_iff hname.noSlash h hweb).mpr (Or.inr (Or.inr rfl)))
  obtain ⟨i, hi, hget⟩ := List.mem_iff_getElem.mp hlisted
  have hentry : (listing.map root.entry)[i]? = some (root.entry (name ++ "_web".toList)) := by
    rw [List.getElem?_map, List.getElem?_eq_getElem hi, hget]
    rfl
  refine ⟨i, hi, hget, hcrates, findWebCrate_ok.mpr ⟨_, hcrates, ?_⟩, hentry.trans ?_⟩
  · refine List.findIdx?_eq_some_iff_getElem.mpr ⟨by simpa using hi, ?_, fun j hj => ?_⟩
    · rw [List.getElem_map, hget, entry_web t hname.noSlash h]
      exact Bool.and_eq_true_iff.mpr ⟨List.isSuffixOf_iff_suffix.mpr (List.suffix_append _ _), rfl⟩
    · -- no other directory in `crates` has such a name
      have hj' : j < listing.length := Nat.lt_trans hj hi
      rw [List.getElem_map, Bool.not_eq_true]
      by_contra htest
      rw [Bool.not_eq_false, Bool.and_eq_true_iff] at htest
      obtain ⟨hends, hfiles⟩ := htest
      have hends : "_web".toList <:+ listing[j] := List.isSuffixOf_iff_suffix.mp hends
      have hdir : "crates/".toList ++ listing[j] ∈ root.dirs := by
        rw [← List.contains_iff_mem]
        by_contra hnot
        unfold Directory.entry at hfiles
        rw [if_neg hnot] at hfiles
        cases hfiles
      have hslash := ((hlist.mem_iff _).mp (List.getElem_mem hj')).2.1
      rcases (mem_dirs_iff hname.noSlash h hslash).mp hdir with heq | heq | heq
      · rw [heq] at hends
        exact hname.notWeb hends
      · rw [heq] at hends
        exact not_models_web name hends
      · exact absurd ((List.Nodup.getElem_inj_iff hlist.nodup).mp (heq.trans hget.symm)) (Nat.ne_of_lt hj)
  · rw [entry_web t hname.noSlash h]

theorem withWebFiles_listing (hlist : root.Lists "crates".toList listing) {i : Nat} (hi : i < listing.length)
    (hget : listing[i] = name ++ "_web".toList) (r : Registry) :
    withWebFiles (listing.map root.entry) i (name ++ "_web".toList) (r.files t (scaffold root name))
      = projectOf t root listing name r := by
  unfold withWebFiles projectOf
  refine congrArg (fun entries => Project.mk (some entries)) (List.ext_getElem (by simp) fun j hj hj' => ?_)
  have hlt : j < listing.length := by simpa using hj'
  rw [List.getElem_set, List.getElem_map, List.getElem_map]
  by_cases hij : i = j
  · subst hij
    rw [if_pos rfl, if_pos hget, hget]
  · have hne : listing[j] ≠ name ++ "_web".toList := fun heq =>
      hij ((List.Nodup.getElem_inj_iff hlist.nodup).mp (hget.trans heq.symm))
    rw [if_neg hij, if_neg hne]

theorem isFile_eq (d : Directory) (path : Text) : d.isFile path = (d.read path).isSome := by
  unfold Directory.isFile Directory.read
  rw [Option.isSome_map, Bool.eq_iff_iff, List.any_eq_true, List.find?_isSome]

theorem not_isFile (h : new creatable writable name .absent = .ok () root) {n : Text} (hn : '/' ∉ n) :
    root.isFile ("crates/".toList ++ n) = false := by
  have hnone : root.read ("crates/".toList ++ n) = none := by
    rw [(new_ok h).2]
    refine written_of_not_mem fun file hfile heq => ?_
    obtain hpath | ⟨rest, hrest, hpath⟩ := newFiles_path hfile
    · have hstart : "crates/".toList <+: "Cargo.toml".toList := ⟨n, heq.symm.trans hpath⟩
      exact absurd hstart (by decide)
    · have hslash : ∀ rest ∈ newRests, '/' ∈ rest := by decide
      rw [← hpath, List.append_assoc] at heq
      rw [← List.append_cancel_left heq] at hn
      exact hn (List.mem_append_right _ (hslash rest hrest))
  rw [isFile_eq, hnone]
  rfl

/-- What is in `crates`: the three crates, and `read_dir` goes through them in any order. -/
theorem lists_crates_iff (hname : '/' ∉ name) (hne : name ≠ [])
    (h : new creatable writable name .absent = .ok () root) :
    root.Lists "crates".toList listing ↔
      listing.Perm [name, name ++ "_models".toList, name ++ "_web".toList] := by
  have hcrates : "crates".toList ++ "/".toList = "crates/".toList := by decide
  have hentry : ∀ n, root.HasEntry "crates".toList n ↔
      n ∈ [name, name ++ "_models".toList, name ++ "_web".toList] := by
    intro n
    simp only [List.mem_cons, List.not_mem_nil, or_false]
    unfold Directory.HasEntry Directory.existsAt
    rw [hcrates]
    constructor
    · rintro ⟨-, hslash, hthere⟩
      rw [not_isFile h hslash, Bool.or_false, List.contains_iff_mem] at hthere
      exact (mem_dirs_iff hname h hslash).mp hthere
    · intro hn
      have hslash : '/' ∉ n := by
        rcases hn with rfl | rfl | rfl <;> simp [hname]
      refine ⟨?_, hslash, Bool.or_eq_true_iff.mpr (Or.inl ?_)⟩
      · rcases hn with rfl | rfl | rfl <;> simp [hne]
      · exact List.contains_iff_mem.mpr ((mem_dirs_iff hname h hslash).mpr hn)
  have hnodup : [name, name ++ "_models".toList, name ++ "_web".toList].Nodup := by simp
  constructor
  · intro hlist
    exact (List.perm_ext_iff_of_nodup hlist.nodup hnodup).mpr fun n => (hlist.mem_iff n).trans (hentry n)
  · intro hperm
    exact ⟨hperm.nodup_iff.mpr hnodup, fun n => hperm.mem_iff.trans (hentry n).symm⟩

theorem ok_of_run {x : NewCommand Unit} (h : (x >>= fun _ => get).run' d = some root) : x d = .ok () root := by
  unfold EStateM.run' EStateM.run at h
  cases hrun : (x >>= fun _ => get) d with
  | ok made d' =>
      rw [hrun] at h
      obtain rfl := Option.some.inj h
      obtain ⟨_, mid, hx, hget⟩ := bind_ok hrun
      cases hget
      exact hx
  | error e d' =>
      rw [hrun] at h
      cases h

end

/-- A plain name without a slash: the texts of two paths with such names are two files. -/
structure CallName (name : Text) : Prop where
  plain : PlainName name
  noSlash : '/' ∉ name

/--
**The generators keep a registry.**  In every project that `new` has made under a name of its own that
does not end in `_web`, in whichever order its crates are listed, and over every sequence of
calls for controllers, channels and resources with plain names without a slash in which no
read or write fails: the outcomes are those of a registry that takes each kind of file for a name once and
refuses it after that, and at every moment the project is the new one with the files of the
registry.  So a module is declared where its file was generated, once and nowhere else, a
resource has its import and its route once unless an earlier one hides it, and nothing else
is ever touched.
-/
theorem generators_refine (hdoc : Documented t) {name : Text} (hname : ProjectName name)
    {creatable writable : Text → Bool} {root : Directory}
    (hnew : new creatable writable name .absent = .ok () root)
    {listing : List Text} (hlist : root.Lists "crates".toList listing)
    {calls : List (Generate × (Text → Bool))} (hnames : ∀ call ∈ calls, CallName call.1.name)
    (hio : .error .io ∉ (generateAll t (root.project listing) calls).1) :
    ∃ outcomes r, Registry.empty.answerAll t ("crates/".toList ++ (name ++ "_web".toList)) (calls.map (·.1))
        = (outcomes, r) ∧
      generateAll t (root.project listing) calls = (outcomes, projectOf t root listing name r) ∧ r.Distinct t := by
  obtain ⟨i, hi, hget, hcrate⟩ := exists_webCrate_new t hname hnew hlist
  obtain ⟨hrun, hdistinct⟩ := generateAll_answers hdoc (scaffold_fresh hnew)
    (fun call hcall => (hnames call hcall).plain) hcrate
    ⟨List.forall_mem_nil _, List.forall_mem_nil _⟩ ⟨List.nodup_nil, List.Sublist.refl _⟩ hio
  exact ⟨_, _, rfl, hrun.trans (Prod.ext rfl (withWebFiles_listing hlist hi hget _)), hdistinct⟩

def blogCalls : List (Generate × (Text → Bool)) :=
  [.resource "Post".toList, .channel "Room".toList, .controller "Post".toList, .resource "ChatRoom".toList].map
    fun call => (call, fun _ => true)

theorem blogCalls_names : ∀ call ∈ blogCalls, CallName call.1.name := by
  have hplain : ∀ call ∈ blogCalls, PlainName call.1.name := by
    simp [blogCalls, Generate.name, PlainName, delimiters]
  have hslash : ∀ call ∈ blogCalls, '/' ∉ call.1.name := by simp [blogCalls, Generate.name]
  exact fun call hcall => ⟨hplain call hcall, hslash call hcall⟩

theorem generators_refine_blog :
    ∃ root : Directory, ∃ listing : List Text,
      new (fun _ => true) (fun _ => true) "blog".toList .absent = .ok () root ∧
      root.Lists "crates".toList listing ∧
      ∃ outcomes r, Registry.empty.answerAll ascii "crates/blog_web".toList (blogCalls.map (·.1)) = (outcomes, r) ∧
        generateAll ascii (root.project listing) blogCalls
          = (outcomes, projectOf ascii root listing "blog".toList r) ∧ r.Distinct ascii := by
  have hdone : ((new (fun _ => true) (fun _ => true) "blog".toList >>= fun _ => get).run' .absent).map
      (fun root => decide (.error .io ∉ (generateAll ascii
        (root.project ["blog_models".toList, "blog".toList, "blog_web".toList]) blogCalls).1))
      = some true := by decide +kernel
  obtain ⟨root, hroot, hio⟩ := Option.map_eq_some_iff.mp hdone
  have hnew := ok_of_run hroot
  have hlist : root.Lists "crates".toList ["blog_models".toList, "blog".toList, "blog_web".toList] :=
    (lists_crates_iff (by decide) (by decide) hnew).mpr (by decide)
  exact ⟨root, _, hnew, hlist, generators_refine ascii_documented ⟨by decide, by decide, by decide⟩ hnew hlist
    blogCalls_names (of_decide_eq_true hio)⟩

end Mahalo.Cargo
