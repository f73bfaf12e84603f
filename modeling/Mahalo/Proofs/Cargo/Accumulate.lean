/-
Resources that are generated one after another.

A name is skipped in `router.rs` if its snake-case form with `_controller` is found
there, and where nothing of the names was in the file before, it is found in the
lines of an earlier name.  `listed` are the names of a run that are not skipped:
their two lines are in `router.rs` once, the lines of all others not at all.  The
line in `controllers/mod.rs` is looked for as a whole, so a run leaves it there once
unless it was there more often before.
-/
import Mahalo.Lib.Lts
import Mahalo.Proofs.Cargo.Edits

namespace Mahalo.Cargo

open RustStd LetterCase Occurrences

variable {t : Tables}

/-! ### The lines of a name -/

def snakeOf (t : Tables) (name : Text) : Text := (normalizeName t name).1

def importOf (t : Tables) (name : Text) : Text := importLine (snakeOf t name) (normalizeName t name).2

def routeOf (t : Tables) (name : Text) : Text := routeLine (pluralize (snakeOf t name)) (normalizeName t name).2

def moduleOf (t : Tables) (name : Text) : Text := modLine (snakeOf t name)

/-- What a name is looked up by stands in the lines of an earlier one. -/
def hides (t : Tables) (earlier later : Text) : Bool :=
  contains (importOf t earlier) (needle (snakeOf t later)) ||
    contains (routeOf t earlier) (needle (snakeOf t later))

/-- A name is hidden by every earlier one whose snake case ends with its own. -/
theorem hides_of_suffix {earlier later : Text} (h : snakeOf t later <:+ snakeOf t earlier) :
    hides t earlier later = true := by
  obtain ⟨front, hfront⟩ := h
  have hneedle : needle (snakeOf t later) <:+ needle (snakeOf t earlier) := by
    refine ⟨front, ?_⟩
    unfold needle
    rw [← hfront, List.append_assoc]
  have hin : needle (snakeOf t later) <:+: importOf t earlier := hneedle.isInfix.trans needle_in_importLine
  exact Bool.or_eq_true_iff.mpr (Or.inl (contains_iff_isInfix.mpr hin))

/-- The names that are not skipped in `router.rs`. -/
def listed (t : Tables) (names : List Text) : List Text :=
  names.foldl (fun kept name => if kept.any (hides t · name) then kept else kept ++ [name]) []

theorem listed_concat (names : List Text) (name : Text) : listed t (names ++ [name]) =
    if (listed t names).any (hides t · name) then listed t names else listed t names ++ [name] := by
  unfold listed
  rw [List.foldl_append]
  rfl

theorem listed_subset {names : List Text} : listed t names ⊆ names := by
  induction names using List.reverseRecOn with
  | nil => exact List.Subset.refl _
  | append_singleton names name ih =>
      rw [listed_concat]
      split
      · exact fun x hx => List.mem_append_left _ (ih hx)
      · exact List.append_subset.mpr ⟨fun x hx => List.mem_append_left _ (ih hx), List.subset_append_right _ _⟩

theorem all_listed_iff {names : List Text} (hnodup : names.Nodup) : (∀ name ∈ names, name ∈ listed t names) ↔
    names.Pairwise fun earlier later => hides t earlier later = false := by
  induction names using List.reverseRecOn with
  | nil => simp
  | append_singleton names name ih =>
      obtain ⟨hnew, hnodup⟩ := (List.nodup_concat names name).mp (by rwa [List.concat_eq_append])
      have ih := ih hnodup
      rw [List.pairwise_append, ← ih, listed_concat]
      constructor
      · intro hall
        have hlast := hall name (List.mem_append_right _ (List.mem_singleton_self _))
        split at hlast
        · exact absurd (listed_subset hlast) hnew
        · -- no listed name hides it, and all before it are listed
          rename_i hnone
          rw [if_neg hnone] at hall
          have hfirst : ∀ x ∈ names, x ∈ listed t names := by
            intro x hx
            obtain hx' | hx' := List.mem_append.mp (hall x (List.mem_append_left _ hx))
            · exact hx'
            · exact absurd (List.mem_singleton.mp hx' ▸ hx) hnew
          refine ⟨hfirst, List.pairwise_singleton _ _, fun earlier hearlier later hlater => ?_⟩
          rw [List.mem_singleton.mp hlater, Bool.eq_false_iff]
          exact fun hhides => hnone (List.any_eq_true.mpr ⟨earlier, hfirst earlier hearlier, hhides⟩)
      · rintro ⟨hfirst, -, hlast⟩ x hx
        have hnone : ¬(listed t names).any (hides t · name) = true := by
          rw [List.any_eq_true]
          rintro ⟨earlier, hearlier, hhides⟩
          rw [hlast earlier (listed_subset hearlier) name (List.mem_singleton_self _)] at hhides
          cases hhides
        rw [if_neg hnone]
        obtain hx | hx := List.mem_append.mp hx
        · exact List.mem_append_left _ (hfirst x hx)
        · exact List.mem_append_right _ hx

/-! ### The text of `router.rs` -/

/-- Names whose lines can be told apart. -/
structure Separable (t : Tables) (names : List Text) : Prop where
  plain : ∀ name ∈ names, PlainForms (snakeOf t name) (normalizeName t name).2
  distinct : ∀ name ∈ names, ∀ other ∈ names, snakeOf t name = snakeOf t other → name = other

variable {names kept : List Text} {router name other : Text}

theorem Separable.imported (hs : Separable t names) (hname : name ∈ names) : RouterLine (importOf t name) :=
  RouterLine.imported (hs.plain name hname)

theorem Separable.routed (hs : Separable t names) (hname : name ∈ names) : RouterLine (routeOf t name) :=
  RouterLine.routed (hs.plain name hname)

theorem Separable.import_eq (hs : Separable t names) (hname : name ∈ names) (hother : other ∈ names)
    (h : importOf t other = importOf t name) : other = name :=
  hs.distinct other hother name hname (importLine_injective (hs.plain other hother) (hs.plain name hname) h)

theorem Separable.route_eq (hs : Separable t names) (hname : name ∈ names) (hother : other ∈ names)
    (h : routeOf t other = routeOf t name) : other = name :=
  hs.distinct other hother name hname (routeLine_injective (hs.plain other hother) (hs.plain name hname) h)

/-- `router.rs` while the lines of `kept` are in it, as far as these names go. -/
structure RouterText (t : Tables) (names kept : List Text) (router : Text) : Prop where
  imports : importsMarker <:+: router
  routes : routesMarker <:+: router
  importCount : ∀ name ∈ names, count (importOf t name) router = if name ∈ kept then 1 else 0
  routeCount : ∀ name ∈ names, count (routeOf t name) router = if name ∈ kept then 1 else 0
  found : ∀ name ∈ names, needle (snakeOf t name) <:+: router → ∃ earlier ∈ kept, hides t earlier name = true

theorem RouterText.found_iff (h : RouterText t names kept router) (hs : Separable t names) (hsub : kept ⊆ names)
    (hname : name ∈ names) :
    needle (snakeOf t name) <:+: router ↔ kept.any (hides t · name) = true := by
  rw [List.any_eq_true]
  constructor
  · exact h.found name hname
  · rintro ⟨earlier, hearlier, hhides⟩
    obtain hin | hin := Bool.or_eq_true_iff.mp hhides
    · have hcount := h.importCount earlier (hsub hearlier)
      rw [if_pos hearlier] at hcount
      exact (contains_iff_isInfix.mp hin).trans (infix_of_count (hs.imported (hsub hearlier)).ne_nil hcount)
    · have hcount := h.routeCount earlier (hsub hearlier)
      rw [if_pos hearlier] at hcount
      exact (contains_iff_isInfix.mp hin).trans (infix_of_count (hs.routed (hsub hearlier)).ne_nil hcount)

/-- The count of a line, where it is one of the two that are put in or none. -/
theorem count_kept {lineOf : Text → Text} {after : Text} (hnew : name ∉ kept)
    (heq : lineOf other = lineOf name → other = name)
    (hcount : count (lineOf other) router = if other ∈ kept then 1 else 0)
    (hafter : count (lineOf other) after = count (lineOf other) router +
      if lineOf other = lineOf name then 1 else 0) :
    count (lineOf other) after = if other ∈ kept ++ [name] then 1 else 0 := by
  rw [hafter, hcount]
  by_cases hsame : other = name
  · subst hsame
    simp [hnew]
  · have hne : lineOf other ≠ lineOf name := fun hline => hsame (heq hline)
    simp [hsame, hne]

theorem RouterText.step (h : RouterText t names kept router) (hs : Separable t names) (hsub : kept ⊆ names)
    (hname : name ∈ names) (hnew : name ∉ kept) :
    RouterText t names (if kept.any (hides t · name) then kept else kept ++ [name])
      (withRoute router (importOf t name) (routeOf t name) (snakeOf t name)) := by
  have hiff := h.found_iff hs hsub hname
  by_cases hany : kept.any (hides t · name) = true
  · rw [if_pos hany, withRoute_found (hiff.mpr hany)]
    exact h
  · have hneedle : ¬needle (snakeOf t name) <:+: router := fun hin => hany (hiff.mp hin)
    have hadded : ∀ {p : Text}, RouterLine p → _ := fun hp =>
      count_withRoute h.imports h.routes hneedle hp (hs.imported hname) (hs.routed hname)
    rw [if_neg hany]
    refine ⟨?_, ?_, fun other hother => ?_, fun other hother => ?_, fun other hother hin => ?_⟩
    · rw [withRoute_new h.imports h.routes hneedle]
      exact importsMarker_injected (marker_infix_injected h.imports) (routesMarker_injected h.imports h.routes)
    · rw [withRoute_new h.imports h.routes hneedle]
      exact marker_infix_injected (routesMarker_injected h.imports h.routes)
    · refine count_kept hnew (hs.import_eq hname hother) (h.importCount other hother) ?_
      rw [hadded (hs.imported hother)]
      exact congrArg _ (count_importLine (hs.plain other hother) (hs.plain name hname))
    · refine count_kept hnew (hs.route_eq hname hother) (h.routeCount other hother) ?_
      rw [hadded (hs.routed hother)]
      exact congrArg _ (count_routeLine (hs.plain other hother) (hs.plain name hname))
    · have hplain := (hs.plain other hother).plainSnake
      have hlast : name ∈ kept ++ [name] := List.mem_append_right _ (List.mem_singleton_self _)
      obtain hin | hin | hin :=
        needle_withRoute h.imports h.routes hneedle hplain (hs.imported hname) (hs.routed hname) hin
      · obtain ⟨earlier, hearlier, hhides⟩ := h.found other hother hin
        exact ⟨earlier, List.mem_append_left _ hearlier, hhides⟩
      · exact ⟨name, hlast, Bool.or_eq_true_iff.mpr (Or.inl (contains_iff_isInfix.mpr hin))⟩
      · exact ⟨name, hlast, Bool.or_eq_true_iff.mpr (Or.inr (contains_iff_isInfix.mpr hin))⟩

/-- What a run starts from: both markers, and nothing of these names. -/
structure Fresh (t : Tables) (names : List Text) (router : Text) : Prop where
  imports : contains router importsMarker = true
  routes : contains router routesMarker = true
  noController : ∀ name ∈ names, contains router (needle (snakeOf t name)) = false
  noRoute : ∀ name ∈ names, contains router (routeOf t name) = false

theorem Fresh.routerText (h : Fresh t names router) (hs : Separable t names) : RouterText t names [] router := by
  have hnone : ∀ name ∈ names, ¬needle (snakeOf t name) <:+: router := by
    intro name hname hin
    exact absurd (h.noController name hname) (by simp [contains_iff_isInfix.mpr hin])
  refine ⟨contains_iff_isInfix.mp h.imports, contains_iff_isInfix.mp h.routes, fun name hname => ?_,
    fun name hname => ?_, fun name hname hin => absurd hin (hnone name hname)⟩
  · rw [if_neg List.not_mem_nil, count_eq_zero (hs.imported hname).ne_nil]
    exact fun hin => hnone name hname (needle_in_importLine.trans hin)
  · rw [if_neg List.not_mem_nil, count_eq_zero (hs.routed hname).ne_nil]
    intro hin
    exact absurd (h.noRoute name hname) (by simp [contains_iff_isInfix.mpr hin])

/-! ### Runs -/

variable {writable : Text → Bool} {p₀ p p' : Project}

/-- A command only puts text into the files of one crate, and adds files to it. -/
def OnlyInserts (before after : Project) : Prop :=
  ∃ entries i crateName files files', before.crates = some entries ∧
    entries[i]? = some { name := crateName, files := some files } ∧
    after = withWebFiles entries i crateName files' ∧
    ∀ path content, files path = some content → ∃ content', files' path = some content' ∧ content.Sublist content'

/-- The successful `resource` commands. -/
def commands (t : Tables) (writable : Text → Bool) (p₀ : Project) : Lts.System Project Text where
  init := p₀
  step p name :=
    match resource t writable name p with
    | (.ok _, p') => some p'
    | (.error _, _) => none

/-- What a run does to the web crate: the names of `done` have been generated. -/
structure Grown (t : Tables) (names : List Text) (p₀ : Project) (done : List Text) (p : Project) : Prop where
  router : ∃ router, p.read routerPath = some router ∧ RouterText t names (listed t done) router
  modules : ∀ name ∈ names, p.times modulesPath (moduleOf t name) =
    if name ∈ done then max 1 (p₀.times modulesPath (moduleOf t name)) else p₀.times modulesPath (moduleOf t name)
  generated : ∀ name ∈ done, (p.read (controllerPath (snakeOf t name))).isSome = true

theorem resource_eq : resource t writable name p = p.inWebCrate fun webCrate =>
    addController writable webCrate (snakeOf t name) (normalizeName t name).2 >>= fun _ =>
      injectRouter writable routerPath (importOf t name) (routeOf t name) (snakeOf t name) := rfl

theorem commands_ok (h : (commands t writable p₀).step p name = some p') :
    ∃ entries i crateName files files', WebCrate p entries i crateName files ∧
      Generated (snakeOf t name) (normalizeName t name).2 files files' ∧
      p' = withWebFiles entries i crateName files' := by
  have hresource : resource t writable name p = (.ok (), p') := by
    unfold commands at h
    simp only at h
    split at h
    · rename_i heq
      cases h
      exact heq
    · cases h
  rw [resource_eq] at hresource
  cases hfind : p.findWebCrate with
  | error e =>
      unfold Project.inWebCrate at hresource
      rw [hfind] at hresource
      cases hresource
  | ok i =>
      obtain ⟨entries, crateName, files, hcrate⟩ := exists_webCrate hfind
      rw [hcrate.inWebCrate] at hresource
      split at hresource
      · rename_i files' hcommand
        cases hresource
        exact ⟨entries, i, crateName, files, files', hcrate, generated_of_ok hcommand, rfl⟩
      · cases hresource

theorem commands_inserts (h : (commands t writable p₀).step p name = some p') : OnlyInserts p p' := by
  obtain ⟨entries, i, crateName, files, files', hcrate, hgenerated, rfl⟩ := commands_ok h
  exact ⟨entries, i, crateName, files, files', hcrate.crates, hcrate.entry, rfl,
    fun path content => hgenerated.inserts⟩

/-- A name whose file is there is refused before anything is written. -/
theorem resource_again (h : (p.read (controllerPath (snakeOf t name))).isSome = true) :
    (resource t writable name p).2 = p := by
  unfold Project.read Project.webFiles at h
  cases hfind : p.findWebCrate with
  | error e =>
      rw [hfind] at h
      cases h
  | ok i =>
      obtain ⟨entries, crateName, files, hcrate⟩ := exists_webCrate hfind
      rw [hfind, hcrate.crates] at h
      simp only [Option.getD_some, hcrate.entry, Option.bind_some] at h
      have hrefused : (addController writable ("crates/".toList ++ crateName) (snakeOf t name)
          (normalizeName t name).2 >>= fun _ =>
            injectRouter writable routerPath (importOf t name) (routeOf t name) (snakeOf t name)) files
          = .error (.alreadyExists "Controller".toList
            ("crates/".toList ++ crateName ++ "/".toList ++ controllerPath (snakeOf t name))) files := by
        change EStateM.bind _ _ files = _
        unfold EStateM.bind
        rw [addController_eq, if_pos h]
      rw [resource_eq, hcrate.inWebCrate, hrefused]
      exact hcrate.unchanged

theorem Grown.start (hs : Separable t names) (hrouter : p₀.read routerPath = some router)
    (hfresh : Fresh t names router) : Grown t names p₀ [] p₀ where
  router := ⟨router, hrouter, hfresh.routerText hs⟩
  modules := fun name _ => by rw [if_neg List.not_mem_nil]
  generated := fun name hname => absurd hname List.not_mem_nil

theorem Grown.step {done : List Text} (hs : Separable t names) (h : Grown t names p₀ done p) (hsub : done ⊆ names)
    (hname : name ∈ names) (hnew : name ∉ done) (hstep : (commands t writable p₀).step p name = some p') :
    Grown t names p₀ (done ++ [name]) p' := by
  obtain ⟨entries, i, crateName, files, files', hcrate, hgenerated, rfl⟩ := commands_ok hstep
  have hread : ∀ path, p.read path = files path := fun path => by
    rw [Project.read, hcrate.webFiles, Option.bind_some]
  have hread' : ∀ path, (withWebFiles entries i crateName files').read path = files' path := fun path => by
    rw [Project.read, (hcrate.change files').webFiles, Option.bind_some]
  refine ⟨?_, fun other hother => ?_, fun other hother => ?_⟩
  -- `router.rs`, `mod.rs` and the files of the controllers
  · obtain ⟨router, hrouter, htext⟩ := h.router
    obtain ⟨content, hcontent, hnewcontent⟩ := hgenerated.router
    rw [hread, hcontent] at hrouter
    obtain rfl := Option.some.inj hrouter
    rw [listed_concat]
    refine ⟨_, (hread' _).trans hnewcontent, ?_⟩
    exact htext.step hs (fun x hx => hsub (listed_subset hx)) hname fun hmem => hnew (listed_subset hmem)
  · have hbefore := h.modules other hother
    obtain ⟨content, hcontent, hnewcontent⟩ := hgenerated.modules
    unfold Project.times at hbefore ⊢
    rw [hread, hcontent, Option.getD_some] at hbefore
    rw [hread', hnewcontent, Option.getD_some]
    have hcount : count (moduleOf t other) (withModule content (moduleOf t name))
        = if snakeOf t other = snakeOf t name then max 1 (count (moduleOf t name) content)
          else count (moduleOf t other) content :=
      count_withModule (hs.plain name hname).plainSnake (hs.plain other hother).plainSnake
    change count (moduleOf t other) (withModule content (moduleOf t name)) = _
    rw [hcount]
    by_cases heq : other = name
    · subst heq
      rw [if_neg hnew] at hbefore
      simp [hbefore]
    · have hne : snakeOf t other ≠ snakeOf t name := fun hsame => heq (hs.distinct other hother name hname hsame)
      simp [hne, heq, hbefore]
  · rw [hread']
    obtain hother | hother := List.mem_append.mp hother
    · have hold := h.generated other hother
      rw [hread] at hold
      obtain ⟨content, hcontent⟩ := Option.isSome_iff_exists.mp hold
      obtain ⟨content', hcontent', -⟩ := hgenerated.inserts hcontent
      rw [hcontent']
      rfl
    · rw [List.mem_singleton.mp hother, hgenerated.created]
      rfl

/-- The run lemma, by induction on what has been run of the names. -/
theorem grown_of_exec {done : List Text} (hs : Separable t names) (hnodup : names.Nodup)
    (hrouter : p₀.read routerPath = some router) (hfresh : Fresh t names router) (hdone : done <+: names)
    (hrun : (commands t writable p₀).exec p₀ done = some p) : Grown t names p₀ done p := by
  induction done using List.reverseRecOn generalizing p with
  | nil =>
      cases hrun
      exact Grown.start hs hrouter hfresh
  | append_singleton done name ih =>
      obtain ⟨mid, hmid, hstep⟩ := Lts.exec_concat hrun
      have hnew : name ∉ done := by
        have hdone' := hnodup.sublist hdone.sublist
        rw [← List.concat_eq_append, List.nodup_concat] at hdone'
        exact hdone'.1
      exact (ih ((List.prefix_append done [name]).trans hdone) hmid).step hs
        (fun x hx => hdone.subset (List.mem_append_left _ hx))
        (hdone.subset (List.mem_append_right _ (List.mem_singleton_self _))) hnew hstep

/-! ### What a run leaves -/

/-- The lines of every name stand there once, nothing else was changed, and no name is generated again. -/
structure Accumulates (t : Tables) (writable : Text → Bool) (names : List Text) (p₀ p : Project) : Prop where
  imports : ∀ name ∈ names, p.times routerPath (importOf t name) = 1
  routes : ∀ name ∈ names, p.times routerPath (routeOf t name) = 1
  modules : ∀ name ∈ names, p.times modulesPath (moduleOf t name) = 1
  inserts : ∀ done name rest before after, names = done ++ name :: rest →
    (commands t writable p₀).exec p₀ done = some before →
    (commands t writable p₀).step before name = some after → OnlyInserts before after
  again : ∀ name ∈ names, ∀ writable', (resource t writable' name p).2 = p

theorem separable_of_plain (h : Documented t) (hplain : ∀ name ∈ names, PlainName name)
    (hdistinct : (names.map (snakeOf t)).Nodup) : Separable t names where
  plain := fun _ hname => plainForms h (hplain _ hname)
  distinct := fun _ hname _ hother heq => List.inj_on_of_nodup_map hdistinct hname hother heq

/--
**Resources accumulate exactly where no name hides a later one.**  For plain names
with distinct snake-case forms, and a `router.rs` with both markers and nothing of
these names: after every run of successful commands the three lines of every name
are there once, each command has only put text in, and running one of them again
changes no file, if and only if no name is found in the lines of an earlier one and
no `pub mod` line was there twice before.
-/
theorem resources_accumulate_iff (h : Documented t) (hplain : ∀ name ∈ names, PlainName name)
    (hdistinct : (names.map (snakeOf t)).Nodup) (hrouter : p₀.read routerPath = some router)
    (hfresh : Fresh t names router) (hrun : (commands t writable p₀).exec p₀ names = some p) :
    Accumulates t writable names p₀ p ↔
      (names.Pairwise fun earlier later => hides t earlier later = false) ∧
        ∀ name ∈ names, p₀.times modulesPath (moduleOf t name) ≤ 1 := by
  have hs := separable_of_plain h hplain hdistinct
  have hnodup : names.Nodup := hdistinct.of_map
  have hgrown := grown_of_exec hs hnodup hrouter hfresh (List.prefix_refl names) hrun
  obtain ⟨after, hafter, htext⟩ := hgrown.router
  have htimes : ∀ line, p.times routerPath line = count line after := fun line => by
    rw [Project.times, hafter, Option.getD_some]
  constructor
  · intro hacc
    refine ⟨(all_listed_iff hnodup).mp fun name hname => ?_, fun name hname => ?_⟩
    · by_contra hnot
      have honce := hacc.imports name hname
      rw [htimes, htext.importCount name hname, if_neg hnot] at honce
      cases honce
    · have honce := hacc.modules name hname
      rw [hgrown.modules name hname, if_pos hname] at honce
      omega
  · rintro ⟨hpairwise, hmodules⟩
    have hlisted := (all_listed_iff hnodup).mpr hpairwise
    refine ⟨fun name hname => ?_, fun name hname => ?_, fun name hname => ?_, ?_, fun name hname writable' => ?_⟩
    · rw [htimes, htext.importCount name hname, if_pos (hlisted name hname)]
    · rw [htimes, htext.routeCount name hname, if_pos (hlisted name hname)]
    · have := hmodules name hname
      rw [hgrown.modules name hname, if_pos hname]
      omega
    · exact fun done name rest before after _ _ hstep => commands_inserts hstep
    · exact resource_again (hgrown.generated name hname)

/-- A web crate with nothing but the markers. -/
def emptyRouter : Text := "// mahalo:imports\n// mahalo:routes\n".toList

def newProject : Project :=
  { crates := some [{
      name := "blog_web".toList
      files := some fun path =>
        if path = routerPath then some emptyRouter
        else if path = modulesPath then some "// mahalo:modules\n".toList
        else none }] }

theorem resources_accumulate_iff_rooms :
    ∃ p, (commands ascii (fun _ => true) newProject).exec newProject ["Post".toList, "ChatRoom".toList] = some p ∧
      Accumulates ascii (fun _ => true) ["Post".toList, "ChatRoom".toList] newProject p := by
  obtain ⟨p, hp⟩ := Option.isSome_iff_exists.mp (show ((commands ascii (fun _ => true) newProject).exec newProject
    ["Post".toList, "ChatRoom".toList]).isSome = true by decide +kernel)
  refine ⟨p, hp, (resources_accumulate_iff ascii_documented (by simp [PlainName, delimiters]) (by decide +kernel)
    (show newProject.read routerPath = some emptyRouter by decide +kernel)
    ⟨by decide +kernel, by decide +kernel, by decide +kernel, by decide +kernel⟩ hp).mpr
    ⟨by decide +kernel, by decide +kernel⟩⟩

/-- `post_controller` is found in `blog_post_controller`. -/
theorem post_skipped :
    newProject.read routerPath = some emptyRouter ∧ count importsMarker emptyRouter = 1 ∧
      count routesMarker emptyRouter = 1 ∧
      (∀ name ∈ ["BlogPost".toList, "Post".toList], contains emptyRouter (snakeOf ascii name) = false) ∧
      (["BlogPost".toList, "Post".toList].map (snakeOf ascii)).Nodup ∧
      ∃ p, (commands ascii (fun _ => true) newProject).exec newProject ["BlogPost".toList, "Post".toList] = some p ∧
        p.times routerPath (importOf ascii "Post".toList) = 0 ∧
        ¬Accumulates ascii (fun _ => true) ["BlogPost".toList, "Post".toList] newProject p := by
  have hmissing : ((commands ascii (fun _ => true) newProject).exec newProject
      ["BlogPost".toList, "Post".toList]).map (·.times routerPath (importOf ascii "Post".toList)) = some 0 := by
    decide +kernel
  obtain ⟨p, hp, htimes⟩ := Option.map_eq_some_iff.mp hmissing
  refine ⟨by decide +kernel, by decide +kernel, by decide +kernel, by decide +kernel, by decide +kernel,
    p, hp, htimes, fun hacc => ?_⟩
  have honce := hacc.imports "Post".toList (by simp)
  rw [htimes] at honce
  cases honce

end Mahalo.Cargo
