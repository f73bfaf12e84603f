/-
What a successful `resource` does to the files.

`withModule` and `withRoute` are what `inject_module` and `inject_router` make of a
text.  Both only put text in, and a line that is put in adds to what is counted
exactly what it holds itself.  `resource_ok` takes a successful command apart: the
file is new, and the two texts are those of before with the lines in them.
-/
import Mahalo.Proofs.Cargo.Lines

namespace Mahalo.Cargo

open RustStd LetterCase Occurrences

variable {content marker line p : Text}

/-! ### One insertion -/

def injected (content marker line : Text) : Text :=
  replaceFirst content marker (marker ++ "\n".toList ++ line)

theorem injected_eq (h : marker <:+: content) (line : Text) : ∃ before behind, content = before ++ marker ++ behind ∧
    injected content marker line = before ++ marker ++ '\n' :: (line ++ behind) := by
  obtain ⟨before, behind, hcontent, hreplace⟩ := replaceFirst_eq h
  refine ⟨before, behind, hcontent, ?_⟩
  unfold injected
  rw [hreplace]
  simp only [List.append_assoc]
  rfl

theorem injected_sublist (h : marker <:+: content) : content.Sublist (injected content marker line) := by
  obtain ⟨before, behind, hcontent, hinjected⟩ := injected_eq h line
  rw [hinjected, hcontent]
  exact (List.Sublist.refl _).append ((List.sublist_append_right line behind).cons _)

theorem count_injected (hin : marker <:+: content) (h : Clear '\n' marker line p) :
    count p (injected content marker line) = count p content + count p line := by
  obtain ⟨before, behind, hcontent, hinjected⟩ := injected_eq hin line
  rw [hinjected, h.count, ← hcontent]

theorem infix_of_injected (hin : marker <:+: content) (hp : p ≠ []) (hnew : '\n' ∉ p) (hl : Apart p line)
    (h : p <:+: injected content marker line) : p <:+: content ∨ p <:+: line := by
  obtain ⟨before, behind, hcontent, hinjected⟩ := injected_eq hin line
  rw [hinjected, infix_separator hp hnew, infix_append hp hl] at h
  rw [hcontent]
  obtain h | h | h := h
  · exact Or.inl (h.trans (List.prefix_append _ _).isInfix)
  · exact Or.inr h
  · exact Or.inl (h.trans (List.suffix_append _ _).isInfix)

theorem marker_infix_injected (hin : marker <:+: content) : marker <:+: injected content marker line := by
  obtain ⟨before, behind, -, hinjected⟩ := injected_eq hin line
  exact ⟨before, '\n' :: (line ++ behind), hinjected.symm⟩

/-- Another marker stays. -/
theorem other_infix_injected {other : Text} (hin : marker <:+: content) (hother : other ≠ [])
    (hapart : Apart other marker) (hnot : ¬marker <:+: other) (h : other <:+: content) :
    other <:+: injected content marker line := by
  obtain ⟨before, behind, hcontent, hinjected⟩ := injected_eq hin line
  rw [hcontent, infix_append hother (apart_append hapart hnot)] at h
  rw [hinjected]
  obtain h | h := h
  · exact h.trans (List.prefix_append _ _).isInfix
  · exact h.trans ((List.suffix_append line behind).trans (List.suffix_cons '\n' _)).isInfix |>.trans
      (List.suffix_append _ _).isInfix

/-! ### What is made of the two texts -/

def modulesMarker : Text := "// mahalo:modules".toList

def withModule (content modLine : Text) : Text :=
  if contains content modLine then content
  else if contains content modulesMarker then injected content modulesMarker modLine
  else content ++ modLine ++ "\n".toList

def withRoute (content importLine routeLine snake : Text) : Text :=
  if contains content (needle snake) then content
  else if !contains content importsMarker || !contains content routesMarker then content
  else injected (injected content importsMarker importLine) routesMarker routeLine

theorem withModule_sublist : content.Sublist (withModule content line) := by
  unfold withModule
  split
  · exact List.Sublist.refl _
  split
  · rename_i hmarker
    exact injected_sublist (contains_iff_isInfix.mp hmarker)
  · exact (List.sublist_append_left _ _).trans (List.sublist_append_left _ _)

theorem markers_apart : Apart routesMarker importsMarker ∧ Apart importsMarker routesMarker ∧
    ¬importsMarker <:+: routesMarker ∧ ¬routesMarker <:+: importsMarker := by
  refine ⟨apart_of_tails (by decide), apart_of_tails (by decide), ?_, ?_⟩ <;>
    exact fun h => absurd (contains_iff_isInfix.mpr h) (by decide)

theorem withRoute_sublist {importLine routeLine snake : Text} :
    content.Sublist (withRoute content importLine routeLine snake) := by
  unfold withRoute
  split
  · exact List.Sublist.refl _
  split
  · exact List.Sublist.refl _
  · rename_i hmarkers
    simp only [Bool.or_eq_true, Bool.not_eq_true', not_or, Bool.not_eq_false] at hmarkers
    have himports := contains_iff_isInfix.mp hmarkers.1
    refine (injected_sublist himports).trans (injected_sublist ?_)
    exact other_infix_injected himports (by decide) markers_apart.1 markers_apart.2.2.1
      (contains_iff_isInfix.mp hmarkers.2)

section Route

variable {importLine routeLine snake : Text}

/-- A name that is not found is put in, at both markers. -/
theorem withRoute_new (himports : importsMarker <:+: content) (hroutes : routesMarker <:+: content)
    (hneedle : ¬needle snake <:+: content) : withRoute content importLine routeLine snake
      = injected (injected content importsMarker importLine) routesMarker routeLine := by
  have hmarkers : ¬(!contains content importsMarker || !contains content routesMarker) = true := by
    rw [contains_iff_isInfix.mpr himports, contains_iff_isInfix.mpr hroutes]
    exact Bool.false_ne_true
  unfold withRoute
  rw [if_neg fun h => hneedle (contains_iff_isInfix.mp h), if_neg hmarkers]

theorem withRoute_found (hneedle : needle snake <:+: content) :
    withRoute content importLine routeLine snake = content := if_pos (contains_iff_isInfix.mpr hneedle)

theorem routesMarker_injected (himports : importsMarker <:+: content) (hroutes : routesMarker <:+: content) :
    routesMarker <:+: injected content importsMarker line :=
  other_infix_injected himports (by decide) markers_apart.1 markers_apart.2.2.1 hroutes

theorem importsMarker_injected (himports : importsMarker <:+: content) (hroutes : routesMarker <:+: content) :
    importsMarker <:+: injected content routesMarker line :=
  other_infix_injected hroutes (by decide) markers_apart.2.1 markers_apart.2.2.2 himports

theorem count_withRoute (himports : importsMarker <:+: content) (hroutes : routesMarker <:+: content)
    (hneedle : ¬needle snake <:+: content) (hp : RouterLine p) (himport : RouterLine importLine)
    (hroute : RouterLine routeLine) :
    count p (withRoute content importLine routeLine snake)
      = count p content + (count p importLine + count p routeLine) := by
  rw [withRoute_new himports hroutes hneedle,
    count_injected (routesMarker_injected himports hroutes) (hp.clear hroute (Or.inr rfl)),
    count_injected himports (hp.clear himport (Or.inl rfl)), Nat.add_assoc]

theorem needle_withRoute {other : Text} (himports : importsMarker <:+: content)
    (hroutes : routesMarker <:+: content) (hneedle : ¬needle snake <:+: content) (hother : PlainName other) (himport : RouterLine importLine)
    (hroute : RouterLine routeLine) (h : needle other <:+: withRoute content importLine routeLine snake) :
    needle other <:+: content ∨ needle other <:+: importLine ∨ needle other <:+: routeLine := by
  have hne : needle other ≠ [] := by simp [needle]
  have hnew : '\n' ∉ needle other := needle_plain hother '\n' (by decide)
  rw [withRoute_new himports hroutes hneedle] at h
  obtain h | h :=
    infix_of_injected (routesMarker_injected himports hroutes) hne hnew (hroute.apart_needle hother) h
  · obtain h | h := infix_of_injected himports hne hnew (himport.apart_needle hother) h
    · exact Or.inl h
    · exact Or.inr (Or.inl h)
  · exact Or.inr (Or.inr h)

end Route

/-- What one module line adds to the occurrences of another. -/
theorem count_withModule {kind : Kind} {snake snake' : Text} (h : PlainName snake) (h' : PlainName snake') :
    count (moduleLine kind snake') (withModule content (moduleLine kind snake))
      = if snake' = snake then max 1 (count (moduleLine kind snake) content)
        else count (moduleLine kind snake') content := by
  have hp := moduleLine_marked kind h'
  have hl := moduleLine_marked kind h
  have hline : count (moduleLine kind snake') (moduleLine kind snake) = if snake' = snake then 1 else 0 := by
    rw [hp.count hl (by decide)]
    by_cases heq : snake' = snake
    · rw [heq, if_pos rfl, if_pos rfl]
    · rw [if_neg heq, if_neg fun hsame => heq (moduleLine_injective hsame)]
  have hnew : '\n' ∉ moduleLine kind snake' := hp.not_mem (by decide) (by decide)
  by_cases hfound : moduleLine kind snake <:+: content
  · have hpos : count (moduleLine kind snake) content ≠ 0 := fun hzero => (count_eq_zero hl.ne_nil).mp hzero hfound
    rw [withModule, if_pos (contains_iff_isInfix.mpr hfound)]
    by_cases heq : snake' = snake
    · rw [heq, if_pos rfl]
      omega
    · rw [if_neg heq]
  · have hzero : count (moduleLine kind snake) content = 0 := (count_eq_zero hl.ne_nil).mpr hfound
    have hadded : count (moduleLine kind snake') (withModule content (moduleLine kind snake))
        = count (moduleLine kind snake') content + count (moduleLine kind snake') (moduleLine kind snake) := by
      rw [withModule, if_neg fun hc => hfound (contains_iff_isInfix.mp hc)]
      by_cases hmarker : contains content modulesMarker = true
      · rw [if_pos hmarker]
        refine count_injected (contains_iff_isInfix.mp hmarker) ⟨hp.ne_nil, hnew, ?_, ?_, ?_⟩
        · unfold moduleLine
          simp only [List.append_assoc]
          exact apart_of_front _ (by decide)
        · have hfront : markerFront <:+: modulesMarker := by decide
          exact fun hwithin => moduleLine_no_marker kind h' (hfront.trans hwithin)
        · exact hp.apart hl (apart_of_tails (by decide))
      · rw [if_neg hmarker, show "\n".toList = '\n' :: [] from rfl, count_separator hp.ne_nil hnew,
          count_nil hp.ne_nil, Nat.add_zero]
        exact count_append_end hp.ne_nil (hl.apart hp (apart_of_tails (by decide)))
          fun hwithin => hl.eq_of_isInfix hp (by decide) hwithin
    rw [hadded, hline]
    by_cases heq : snake' = snake
    · rw [heq, if_pos rfl, if_pos rfl, hzero]
      rfl
    · rw [if_neg heq, if_neg heq, Nat.add_zero]

/-! ### Paths -/

def filePath (kind : Kind) (snake : Text) : Text :=
  "src/".toList ++ kind.dir.toList ++ "/".toList ++ snake ++ "_".toList ++ kind.word.toList ++ ".rs".toList

def modPath (kind : Kind) : Text := "src/".toList ++ kind.dir.toList ++ "/mod.rs".toList

/-- The paths for controllers. -/
abbrev controllerPath (snake : Text) : Text := filePath .controller snake

abbrev modulesPath : Text := modPath .controller

def routerPath : Text := "src/router.rs".toList

theorem filePath_long (kind : Kind) (snake : Text) : 24 ≤ (filePath kind snake).length := by
  unfold filePath
  cases kind <;> simp [Kind.dir, Kind.word]

theorem filePath_ne_of_short {kind : Kind} {snake path : Text} (h : path.length < 24) :
    filePath kind snake ≠ path := by
  rintro rfl
  exact absurd (filePath_long kind snake) (Nat.not_le_of_lt h)

theorem filePath_ne_modPath (kind kind' : Kind) (snake : Text) : filePath kind snake ≠ modPath kind' := by
  cases kind' <;> exact filePath_ne_of_short (by decide)

theorem filePath_ne_routerPath (kind : Kind) (snake : Text) : filePath kind snake ≠ routerPath :=
  filePath_ne_of_short (by decide)

theorem modPath_ne_routerPath (kind : Kind) : modPath kind ≠ routerPath := by cases kind <;> decide

theorem filePath_kind {kind kind' : Kind} {snake snake' : Text} (h : filePath kind snake = filePath kind' snake') :
    kind = kind' := by
  have hchar : (filePath kind snake)[5]? = (filePath kind' snake')[5]? := by rw [h]
  have hcontroller : ∀ s, (filePath .controller s)[5]? = some 'o' := fun s => rfl
  have hchannel : ∀ s, (filePath .channel s)[5]? = some 'h' := fun s => rfl
  cases kind <;> cases kind'
  · rfl
  · rw [hcontroller, hchannel] at hchar
    exact absurd hchar (by decide)
  · rw [hcontroller, hchannel] at hchar
    exact absurd hchar (by decide)
  · rfl

theorem filePath_inj {kind kind' : Kind} {snake snake' : Text} :
    filePath kind snake = filePath kind' snake' ↔ kind = kind' ∧ snake = snake' := by
  constructor
  · intro h
    obtain rfl := filePath_kind h
    unfold filePath at h
    simp only [List.append_assoc, List.append_cancel_left_eq] at h
    exact ⟨rfl, List.append_cancel_right h⟩
  · rintro ⟨rfl, rfl⟩
    rfl

/-! ### Commands that succeed -/

section Commands

variable {writable : Text → Bool} {files files' : Files} {path name snake pascal : Text}

theorem bind_ok {ε σ α β : Type} {x : EStateM ε σ α} {f : α → EStateM ε σ β} {s s' : σ} {b : β}
    (h : (x >>= f) s = .ok b s') : ∃ a mid, x s = .ok a mid ∧ f a mid = .ok b s' := by
  change EStateM.bind x f s = _ at h
  unfold EStateM.bind at h
  cases hx : x s with
  | ok a mid =>
      rw [hx] at h
      exact ⟨a, mid, rfl, h⟩
  | error e mid =>
      rw [hx] at h
      cases h

theorem readToString_ok {content : Text} (h : readToString path files = .ok content files') :
    files path = some content ∧ files' = files := by
  unfold readToString at h
  cases hfile : files path with
  | none =>
      rw [hfile] at h
      cases h
  | some found =>
      rw [hfile] at h
      cases h
      exact ⟨rfl, rfl⟩

theorem write_ok (h : write writable path content files = .ok () files') : files' = files.write path content := by
  unfold write at h
  split at h <;> cases h
  rfl

@[simp] theorem Files.write_path : files.write path content path = some content := if_pos rfl

theorem Files.write_other {path' : Text} (h : path' ≠ path) : files.write path content path' = files path' :=
  if_neg h

theorem Files.write_same (h : files path = some content) : files.write path content = files := by
  funext path'
  unfold Files.write
  split
  · rename_i heq
    rw [heq, h]
  · rfl

theorem injectModule_ok (h : injectModule writable path name files = .ok () files') :
    ∃ content, files path = some content ∧
      files' = files.write path (withModule content ("pub mod ".toList ++ name ++ ";".toList)) := by
  unfold injectModule at h
  obtain ⟨content, mid, hread, hrest⟩ := bind_ok h
  obtain ⟨hcontent, rfl⟩ := readToString_ok hread
  refine ⟨content, hcontent, ?_⟩
  unfold withModule
  by_cases hpresent : contains content ("pub mod ".toList ++ name ++ ";".toList) = true
  · simp only [hpresent, if_true] at hrest
    cases hrest
    rw [if_pos hpresent, Files.write_same hcontent]
  · simp only [hpresent] at hrest
    rw [if_neg hpresent]
    exact write_ok hrest

theorem injectRouter_ok {importLine routeLine : Text}
    (h : injectRouter writable path importLine routeLine snake files = .ok () files') :
    ∃ content, files path = some content ∧
      files' = files.write path (withRoute content importLine routeLine snake) := by
  unfold injectRouter at h
  obtain ⟨content, mid, hread, hrest⟩ := bind_ok h
  obtain ⟨hcontent, rfl⟩ := readToString_ok hread
  refine ⟨content, hcontent, ?_⟩
  unfold withRoute needle
  by_cases hpresent : contains content (snake ++ "_controller".toList) = true
  · rw [if_pos hpresent] at hrest
    cases hrest
    rw [if_pos hpresent, Files.write_same hcontent]
  · rw [if_neg hpresent] at hrest
    rw [if_neg hpresent]
    by_cases hmarkers : (!contains content importsMarker || !contains content routesMarker) = true
    · rw [if_pos hmarkers] at hrest
      cases hrest
      rw [if_pos hmarkers, Files.write_same hcontent]
    · rw [if_neg hmarkers] at hrest
      rw [if_neg hmarkers]
      exact write_ok hrest

theorem addFile_eq (kind : Kind) (webCrate snake content : Text) :
    addFile writable kind.dir kind.word kind.label webCrate snake content files =
      if (files (filePath kind snake)).isSome then
        .error (.alreadyExists kind.label.toList (webCrate ++ "/".toList ++ filePath kind snake)) files
      else
        (write writable (filePath kind snake) content >>= fun _ =>
          injectModule writable (modPath kind) (snake ++ "_".toList ++ kind.word.toList)) files := by
  unfold addFile
  change EStateM.bind _ _ files = _
  by_cases h : (files (filePath kind snake)).isSome = true
  · rw [if_pos h]
    unfold filePath at h
    simp only [EStateM.bind, get, getThe, MonadStateOf.get, EStateM.get, h, if_true]
    rfl
  · rw [if_neg h]
    unfold filePath at h
    simp only [EStateM.bind, get, getThe, MonadStateOf.get, EStateM.get, h]
    rfl

theorem addController_eq (webCrate : Text) : addController writable webCrate snake pascal files =
    if (files (controllerPath snake)).isSome then
      .error (.alreadyExists "Controller".toList (webCrate ++ "/".toList ++ controllerPath snake)) files
    else
      (write writable (controllerPath snake) (controllerFile pascal) >>= fun _ =>
        injectModule writable modulesPath (snake ++ "_".toList ++ "controller".toList)) files :=
  addFile_eq .controller webCrate snake (controllerFile pascal)

theorem addController_ok {webCrate : Text}
    (h : addController writable webCrate snake pascal files = .ok () files') :
    files (controllerPath snake) = none ∧ ∃ content,
      files.write (controllerPath snake) (controllerFile pascal) modulesPath = some content ∧
      files' = (files.write (controllerPath snake) (controllerFile pascal)).write modulesPath
        (withModule content (modLine snake)) := by
  rw [addController_eq] at h
  by_cases hfresh : (files (controllerPath snake)).isSome = true
  · rw [if_pos hfresh] at h
    cases h
  · rw [if_neg hfresh] at h
    obtain ⟨_, written, hwrite, hmodule⟩ := bind_ok h
    obtain rfl := write_ok hwrite
    exact ⟨by simpa using hfresh, injectModule_ok hmodule⟩

/-- What a successful `resource` does to the files of the web crate. -/
structure Generated (snake pascal : Text) (files files' : Files) : Prop where
  fresh : files (controllerPath snake) = none
  created : files' (controllerPath snake) = some (controllerFile pascal)
  modules : ∃ content, files modulesPath = some content ∧
    files' modulesPath = some (withModule content (modLine snake))
  router : ∃ content, files routerPath = some content ∧ files' routerPath = some
    (withRoute content (importLine snake pascal) (routeLine (pluralize snake) pascal) snake)
  others : ∀ path, path ≠ controllerPath snake → path ≠ modulesPath → path ≠ routerPath → files' path = files path

theorem generated_of_ok {webCrate : Text}
    (h : (addController writable webCrate snake pascal >>= fun _ => injectRouter writable routerPath
      (importLine snake pascal) (routeLine (pluralize snake) pascal) snake) files = .ok () files') :
    Generated snake pascal files files' := by
  obtain ⟨_, mid, hadd, hinject⟩ := bind_ok h
  obtain ⟨hfresh, modules, hmodules, rfl⟩ := addController_ok hadd
  obtain ⟨router, hrouter, rfl⟩ := injectRouter_ok hinject
  have hcm : controllerPath snake ≠ modulesPath := filePath_ne_modPath .controller .controller snake
  have hcr : controllerPath snake ≠ routerPath := filePath_ne_routerPath .controller snake
  have hmr : modulesPath ≠ routerPath := modPath_ne_routerPath .controller
  rw [Files.write_other hcm.symm] at hmodules
  rw [Files.write_other hmr.symm, Files.write_other hcr.symm] at hrouter
  refine ⟨hfresh, ?_, ⟨modules, hmodules, ?_⟩, ⟨router, hrouter, Files.write_path⟩, ?_⟩
  · rw [Files.write_other hcr, Files.write_other hcm, Files.write_path]
  · rw [Files.write_other hmr, Files.write_path]
  · intro path hc hm hr
    rw [Files.write_other hr, Files.write_other hm, Files.write_other hc]

/-- A text is only put in: nothing of an old file is lost. -/
theorem Generated.inserts (h : Generated snake pascal files files') {path content : Text}
    (hfile : files path = some content) : ∃ content', files' path = some content' ∧ content.Sublist content' := by
  by_cases hm : path = modulesPath
  · obtain ⟨old, hold, hnew⟩ := h.modules
    rw [← hm, hfile] at hold
    obtain rfl := Option.some.inj hold
    exact ⟨_, hm ▸ hnew, withModule_sublist⟩
  by_cases hr : path = routerPath
  · obtain ⟨old, hold, hnew⟩ := h.router
    rw [← hr, hfile] at hold
    obtain rfl := Option.some.inj hold
    exact ⟨_, hr ▸ hnew, withRoute_sublist⟩
  have hc : path ≠ controllerPath snake := by
    rintro rfl
    rw [h.fresh] at hfile
    cases hfile
  exact ⟨content, (h.others path hc hm hr).trans hfile, List.Sublist.refl _⟩

end Commands

/-! ### Projects -/

/-- The files of the web crate. -/
def Project.webFiles (p : Project) : Option Files :=
  match p.findWebCrate with
  | .ok i => ((p.crates.getD [])[i]?).bind (·.files)
  | .error _ => none

def Project.read (p : Project) (path : Text) : Option Text := p.webFiles.bind (· path)

/-- How often a line stands in a file of the web crate. -/
def Project.times (p : Project) (path line : Text) : Nat := count line ((p.read path).getD [])

/-- The web crate of a project, and where it stands. -/
structure WebCrate (p : Project) (entries : List Entry) (i : Nat) (crateName : Text) (files : Files) : Prop where
  crates : p.crates = some entries
  found : p.findWebCrate = .ok i
  entry : entries[i]? = some { name := crateName, files := some files }

/-- The project with other files in its web crate. -/
def withWebFiles (entries : List Entry) (i : Nat) (crateName : Text) (files : Files) : Project :=
  { crates := some (entries.set i { name := crateName, files := some files }) }

variable {p p' : Project} {entries : List Entry} {i : Nat} {crateName : Text} {files files' : Files}

theorem findWebCrate_ok : p.findWebCrate = .ok i ↔ ∃ entries, p.crates = some entries ∧
    entries.findIdx? (fun entry => endsWith entry.name "_web".toList && entry.files.isSome) = some i := by
  unfold Project.findWebCrate
  cases p.crates with
  | none => simp
  | some entries =>
      simp only [Option.some.injEq, exists_eq_left']
      generalize entries.findIdx? _ = found
      cases found <;> simp

theorem exists_webCrate (h : p.findWebCrate = .ok i) :
    ∃ entries crateName files, WebCrate p entries i crateName files := by
  obtain ⟨entries, hcrates, hfound⟩ := findWebCrate_ok.mp h
  obtain ⟨hi, htest, -⟩ := List.findIdx?_eq_some_iff_getElem.mp hfound
  obtain ⟨files, hfiles⟩ := Option.isSome_iff_exists.mp (Bool.and_eq_true_iff.mp htest).2
  refine ⟨entries, entries[i].name, files, hcrates, h, ?_⟩
  rw [List.getElem?_eq_getElem hi, ← hfiles]

theorem WebCrate.webFiles (h : WebCrate p entries i crateName files) : p.webFiles = some files := by
  unfold Project.webFiles
  rw [h.found, h.crates]
  simp [h.entry]

theorem WebCrate.unchanged (h : WebCrate p entries i crateName files) :
    withWebFiles entries i crateName files = p := by
  obtain ⟨hi, hentry⟩ := List.getElem?_eq_some_iff.mp h.entry
  unfold withWebFiles
  rw [← hentry, List.set_getElem_self, ← h.crates]

/-- It is found again after its files have changed. -/
theorem WebCrate.change (h : WebCrate p entries i crateName files) (files' : Files) :
    WebCrate (withWebFiles entries i crateName files')
      (entries.set i { name := crateName, files := some files' }) i crateName files' := by
  obtain ⟨entries', hcrates, hfound⟩ := findWebCrate_ok.mp h.found
  obtain rfl := Option.some.inj (h.crates.symm.trans hcrates)
  obtain ⟨hi, htest, hbefore⟩ := List.findIdx?_eq_some_iff_getElem.mp hfound
  have hentry := h.entry
  rw [List.getElem?_eq_getElem hi] at hentry
  refine ⟨rfl, findWebCrate_ok.mpr ⟨_, rfl, List.findIdx?_eq_some_iff_getElem.mpr ⟨by simpa using hi, ?_, ?_⟩⟩, ?_⟩
  · rw [Option.some.inj hentry] at htest
    simpa using (Bool.and_eq_true_iff.mp htest).1
  · intro j hj
    rw [List.getElem_set_ne (Nat.ne_of_gt hj)]
    exact hbefore j hj
  · simp [hi]

theorem WebCrate.inWebCrate (h : WebCrate p entries i crateName files) (command : Text → Command Unit) :
    p.inWebCrate command = match command ("crates/".toList ++ crateName) files with
      | .ok _ files' => (.ok (), withWebFiles entries i crateName files')
      | .error e files' => (.error e, withWebFiles entries i crateName files') := by
  unfold Project.inWebCrate
  rw [h.found, h.crates]
  simp only [Option.getD_some, h.entry]
  cases command ("crates/".toList ++ crateName) files <;> rfl

end Mahalo.Cargo
