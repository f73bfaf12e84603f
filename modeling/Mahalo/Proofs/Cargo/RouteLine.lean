/-
What a generated route registers.

The line that `resource` adds to `router.rs` is a call of `scope` in Rust, which
`evalRouteLine` reads.  The scope has the plural for its prefix, and in it the
resources have the plural for their path.  A scope puts its prefix in front of every
path, so the routes are registered under `/{plural}/{plural}`, and `/{plural}`, that
the command announces, is no route.
-/
import Mahalo.Cargo.Generate
import Mahalo.Lib.Occurrences
import Mahalo.Proofs.Router.Reverse

namespace Mahalo.Cargo

open RustStd LetterCase Router

variable {A Ω : Type} {t : Tables}

/-! ### The line as a call -/

/-- A string literal that has no escapes, and what is behind it. -/
def stringLiteral (s : Text) : Option (Text × Text) :=
  (stripPrefix s ['\x22']).bind fun rest =>
    (splitAtChar rest '\x22').bind fun (text, behind) =>
      if '\x5c' ∈ text then none else some (text, behind)

/-- The call that a line stands for; `controllers` says what the names of controllers stand for. -/
def evalRouteLine (controllers : Text → Controller A Ω) (line : Text) : Option (BuilderCall A Ω) :=
  (stripPrefix line "        .scope(".toList).bind fun rest =>
  (stringLiteral rest).bind fun (scopePrefix, rest) =>
  (stripPrefix rest ", &[], |s| \x7b s.resources(".toList).bind fun rest =>
  (stringLiteral rest).bind fun (path, rest) =>
  (stripPrefix rest ", std::sync::Arc::new(".toList).bind fun rest =>
  (splitAtChar rest ')').bind fun (name, rest) =>
    if rest = "); \x7d)".toList then
      some (.scope (String.ofList scopePrefix) [] [.resources (String.ofList path) (controllers name)])
    else none

/-- The routes of the five actions that the command announces under a base. -/
def announced (base : Text) : List (Method × String) :=
  [(.get, String.ofList base), (.get, String.ofList base ++ "/:id"), (.post, String.ofList base),
    (.put, String.ofList base ++ "/:id"), (.delete, String.ofList base ++ "/:id")]

/-- Methods and paths, as `matchit` is given them. -/
def paths (routes : List (Method × String)) : List (Method × String) :=
  routes.map fun (method, path) => (method, colonToBrace path)

def registered (calls : List (BuilderCall A Ω)) : List (Method × String) :=
  (build calls).routes.map fun route => (route.method, route.matchitPath)

/-- The line of a name is a call that registers the routes announced for its plural, and no other. -/
def AgreesOnPaths (t : Tables) (controllers : Text → Controller A Ω) (name : Text) : Prop :=
  ∃ call, evalRouteLine controllers
      (routeLine (pluralize (normalizeName t name).1) (normalizeName t name).2) = some call ∧
    ∀ route, route ∈ registered [call] ↔
      route ∈ paths (announced ('/' :: pluralize (normalizeName t name).1))

theorem stringLiteral_eq_some {s text behind : Text} (h : stringLiteral s = some (text, behind)) :
    s = '\x22' :: (text ++ '\x22' :: behind) ∧ '\x22' ∉ text := by
  unfold stringLiteral at h
  obtain ⟨rest, hrest, h⟩ := Option.bind_eq_some_iff.mp h
  obtain ⟨⟨text', behind'⟩, hsplit, h⟩ := Option.bind_eq_some_iff.mp h
  by_cases hescape : '\x5c' ∈ text'
  · simp [hescape] at h
  · obtain ⟨rfl, rfl⟩ : text' = text ∧ behind' = behind := by simpa [hescape] using h
    obtain ⟨rfl, hquote⟩ := splitAtChar_eq_some.mp hsplit
    exact ⟨stripPrefix_eq_some.mp hrest, hquote⟩

theorem stringLiteral_quoted {text : Text} (behind : Text) (hquote : '\x22' ∉ text) (hescape : '\x5c' ∉ text) :
    stringLiteral ('\x22' :: (text ++ '\x22' :: behind)) = some (text, behind) := by
  have hpre : stripPrefix ('\x22' :: (text ++ '\x22' :: behind)) ['\x22'] = some (text ++ '\x22' :: behind) :=
    stripPrefix_eq_some.mpr rfl
  have hsplit : splitAtChar (text ++ '\x22' :: behind) '\x22' = some (text, behind) :=
    splitAtChar_eq_some.mpr ⟨rfl, hquote⟩
  unfold stringLiteral
  rw [hpre, Option.bind_some, hsplit, Option.bind_some]
  exact if_neg hescape

/-- The line with its literals apart. -/
theorem routeLine_eq (plural pascal : Text) :
    routeLine plural pascal = "        .scope(".toList ++ ('\x22' :: (('/' :: plural) ++ '\x22' ::
      (", &[], |s| \x7b s.resources(".toList ++ ('\x22' :: (('/' :: plural) ++ '\x22' ::
        (", std::sync::Arc::new(".toList ++
          ((pascal ++ "Controller".toList) ++ ')' :: "); \x7d)".toList))))))) := by
  have hscope : "        .scope(\"/".toList = "        .scope(".toList ++ ['\x22', '/'] := rfl
  have hresources : "\", &[], |s| \x7b s.resources(\"/".toList
      = '\x22' :: (", &[], |s| \x7b s.resources(".toList ++ ['\x22', '/']) := rfl
  have harc : "\", std::sync::Arc::new(".toList = '\x22' :: ", std::sync::Arc::new(".toList := rfl
  have hend : "Controller)); \x7d)".toList = "Controller".toList ++ ')' :: "); \x7d)".toList := rfl
  unfold routeLine
  rw [hscope, hresources, harc, hend]
  generalize "        .scope(".toList = scope
  generalize ", &[], |s| \x7b s.resources(".toList = resources
  simp only [List.append_assoc, List.cons_append, List.nil_append]

/-- Of a name without quotation marks, backslashes or parentheses the line is the call it looks like. -/
theorem evalRouteLine_routeLine (controllers : Text → Controller A Ω) {plural pascal : Text}
    (hquote : '\x22' ∉ plural) (hescape : '\x5c' ∉ plural) (hparen : ')' ∉ pascal) :
    evalRouteLine controllers (routeLine plural pascal)
      = some (.scope (String.ofList ('/' :: plural)) []
          [.resources (String.ofList ('/' :: plural)) (controllers (pascal ++ "Controller".toList))]) := by
  have hquote' : '\x22' ∉ '/' :: plural := by simpa using hquote
  have hescape' : '\x5c' ∉ '/' :: plural := by simpa using hescape
  have hparen' : ')' ∉ pascal ++ "Controller".toList := by
    simp [hparen]
  unfold evalRouteLine
  rw [routeLine_eq, stripPrefix_eq_some.mpr rfl, Option.bind_some, stringLiteral_quoted _ hquote' hescape',
    Option.bind_some]
  dsimp only
  rw [stripPrefix_eq_some.mpr rfl, Option.bind_some, stringLiteral_quoted _ hquote' hescape', Option.bind_some]
  dsimp only
  rw [stripPrefix_eq_some.mpr rfl, Option.bind_some, splitAtChar_eq_some.mpr ⟨rfl, hparen'⟩, Option.bind_some]
  exact if_pos rfl

/-- Whatever the line is, its two literals are without quotation marks; and they are the plural if that is. -/
theorem evalRouteLine_eq_some {controllers : Text → Controller A Ω} {plural pascal : Text}
    {call : BuilderCall A Ω} (h : evalRouteLine controllers (routeLine plural pascal) = some call) :
    ∃ scopePrefix path controller,
      call = .scope (String.ofList scopePrefix) [] [.resources (String.ofList path) controller] ∧
      '\x22' ∉ scopePrefix ∧ '\x22' ∉ path ∧
      ('\x22' ∉ plural → scopePrefix = '/' :: plural ∧ path = '/' :: plural) := by
  unfold evalRouteLine at h
  obtain ⟨rest₁, hrest₁, h⟩ := Option.bind_eq_some_iff.mp h
  obtain ⟨⟨scopePrefix, rest₂⟩, hscope, h⟩ := Option.bind_eq_some_iff.mp h
  obtain ⟨rest₃, hrest₃, h⟩ := Option.bind_eq_some_iff.mp h
  obtain ⟨⟨path, rest₄⟩, hpath, h⟩ := Option.bind_eq_some_iff.mp h
  obtain ⟨rest₅, hrest₅, h⟩ := Option.bind_eq_some_iff.mp h
  obtain ⟨⟨name, rest₆⟩, hname, h⟩ := Option.bind_eq_some_iff.mp h
  dsimp only at h
  by_cases hend : rest₆ = "); \x7d)".toList
  · obtain ⟨hline, hquote⟩ := stringLiteral_eq_some hscope
    obtain ⟨hline', hquote'⟩ := stringLiteral_eq_some hpath
    refine ⟨scopePrefix, path, controllers name, ?_, hquote, hquote', ?_⟩
    · rw [if_pos hend] at h
      exact (Option.some.inj h).symm
    · intro hplural
      have hslash : '\x22' ∉ '/' :: plural := by simpa using hplural
      have hwhole := stripPrefix_eq_some.mp hrest₁
      rw [routeLine_eq, hline] at hwhole
      obtain ⟨hpre, hbehind⟩ := Occurrences.append_cons_unique hslash hquote
        (List.cons.inj (List.append_cancel_left hwhole)).2
      rw [stripPrefix_eq_some.mp hrest₃, hline'] at hbehind
      obtain ⟨hpath, -⟩ := Occurrences.append_cons_unique hslash hquote'
        (List.cons.inj (List.append_cancel_left hbehind)).2
      exact ⟨hpre.symm, hpath.symm⟩
  · rw [if_neg hend] at h
    cases h

/-! ### What it registers -/

theorem registered_eq (calls : List (BuilderCall A Ω)) : registered calls = paths (declared calls) := by
  have hdeclares := (build_declares calls).1
  unfold registered paths
  generalize (build calls).routes = routes at hdeclares ⊢
  generalize declared calls = ds at hdeclares ⊢
  induction hdeclares with
  | nil => rfl
  | cons hd _ ih => rw [List.map_cons, List.map_cons, ih, hd.method, hd.matchitPath]

theorem mem_intercalate {c x : Char} {ss : List Text} (hx : x ≠ c) :
    x ∈ [c].intercalate ss ↔ ∃ s ∈ ss, x ∈ s := by
  induction ss with
  | nil => simp
  | cons s ss ih =>
      cases ss with
      | nil => simp
      | cons s' ss =>
          rw [List.intercalate_cons_cons, List.mem_append, List.mem_append, ih, List.mem_singleton]
          simp [hx]

theorem mem_braced {x : Char} {segment : Text} (hx : x ∉ [':', '\x7b', '\x7d']) :
    x ∈ braced segment ↔ x ∈ segment := by
  simp only [List.mem_cons, List.not_mem_nil, or_false, not_or] at hx
  unfold braced
  cases hs : stripPrefix segment [':'] with
  | none => rfl
  | some name =>
      rw [stripPrefix_eq_some.mp hs]
      simp [hx]

/-- A character of the path is in a piece that is kept. -/
theorem exists_matchitPieces {x : Char} {path : String} (hx : x ≠ '/') :
    (∃ s ∈ matchitPieces path, x ∈ s) ↔ x ∈ path.toList := by
  have hjoin : path.toList = ['/'].intercalate (pieces path) := (List.intercalate_splitOn '/').symm
  rw [hjoin, mem_intercalate hx]
  constructor
  · rintro ⟨s, hs, hmem⟩
    exact ⟨s, (List.dropWhile_sublist _).subset hs, hmem⟩
  · rintro ⟨s, hs, hmem⟩
    refine ⟨s, ?_, hmem⟩
    have hin : s ∈ segmentsOf path.toList := by
      refine List.mem_filter.mpr ⟨hs, ?_⟩
      cases s with
      | nil => cases hmem
      | cons c s => rfl
    rw [segmentsOf_eq_filter] at hin
    exact List.mem_of_mem_filter hin

/-- Slashes, colons and braces apart, the path given to `matchit` has the characters of the path. -/
theorem mem_colonToBrace {x : Char} (hx : x ∉ ['/', ':', '\x7b', '\x7d']) (path : String) :
    x ∈ (colonToBrace path).toList ↔ x ∈ path.toList := by
  simp only [List.mem_cons, List.not_mem_nil, or_false, not_or] at hx
  have hnot : x ∉ [':', '\x7b', '\x7d'] := by simp [hx]
  rw [colonToBrace_eq, String.toList_ofList, List.mem_cons, or_iff_right hx.1, mem_intercalate hx.1,
    ← exists_matchitPieces hx.1]
  simp only [List.mem_map, exists_exists_and_eq_and, mem_braced hnot]

theorem pieces_colonToBrace {path : String} (h : matchitPieces path ≠ []) :
    pieces (colonToBrace path) = [] :: (matchitPieces path).map braced := by
  have hcolon : colonToBrace path = rooted ((matchitPieces path).map braced) := colonToBrace_eq path
  rw [hcolon, pieces_rooted (by simpa using h)]
  intro s hs
  obtain ⟨t, ht, rfl⟩ := List.mem_map.mp hs
  exact slash_not_mem_braced (slash_not_mem_matchitPieces t ht)

/-- A path that goes on behind a slash is another path. -/
theorem colonToBrace_append_ne {path more : String} {x : Char} {behind : Text} (hx : x ∈ path.toList)
    (hslash : x ≠ '/') (hmore : more.toList = '/' :: behind) :
    colonToBrace (path ++ more) ≠ colonToBrace path := by
  intro heq
  have hpieces : pieces (path ++ more) = pieces path ++ behind.splitOn '/' := by
    unfold pieces
    rw [String.toList_append, hmore, List.splitOn_append_cons_self]
  have hkept : matchitPieces path ≠ [] := by
    obtain ⟨s, hs, -⟩ := (exists_matchitPieces hslash).mpr hx
    exact List.ne_nil_of_mem hs
  have hlonger : matchitPieces (path ++ more) = matchitPieces path ++ behind.splitOn '/' := by
    have hsome : (List.dropWhile List.isEmpty (pieces path)).isEmpty = false := by
      simpa [matchitPieces] using hkept
    unfold matchitPieces
    rw [hpieces, List.dropWhile_append, hsome, if_neg Bool.false_ne_true]
  have hkept' : matchitPieces (path ++ more) ≠ [] := by
    rw [hlonger]
    exact List.append_ne_nil_of_left_ne_nil hkept _
  have hsame := congrArg pieces heq
  rw [pieces_colonToBrace hkept, pieces_colonToBrace hkept', hlonger] at hsame
  have hlength := congrArg List.length (List.cons.inj hsame).2
  rw [List.map_append, List.length_append, List.length_map, List.length_map] at hlength
  have hnone : (behind.splitOn '/').length = 0 := by omega
  exact List.splitOn_ne_nil '/' behind (List.length_eq_zero_iff.mp hnone)

/-! ### The plural in a scope of its own -/

theorem normalizePrefix_plural (snake : Text) :
    normalizePrefix (String.ofList ('/' :: pluralize snake)) = String.ofList ('/' :: pluralize snake) := by
  have htrim : trimEndMatches ('/' :: pluralize snake) '/' = '/' :: pluralize snake := by
    unfold trimEndMatches pluralize
    rw [← List.cons_append, List.reverse_append, List.reverse_singleton, List.singleton_append,
      List.dropWhile_cons_of_neg (by decide), List.reverse_cons, List.reverse_reverse]
  unfold normalizePrefix
  rw [String.toList_ofList, htrim]
  exact congrArg String.ofList (if_pos rfl)

/-- Behind the prefix, a path that begins with a slash is put as it is. -/
theorem fullPath_slash (scopePrefix : String) {path : String} {c : Char} {behind : Text}
    (h : path.toList = '/' :: c :: behind) : fullPath scopePrefix path = scopePrefix ++ path := by
  have hroot : ¬(path = "/" ∨ path = "") := by
    rintro (rfl | rfl) <;> cases h
  have hslash : startsWith path.toList ['/'] = true := by
    rw [h]
    rfl
  unfold fullPath
  rw [if_neg hroot, if_pos hslash]

/-- The routes of a scope with nothing but resources in it. -/
theorem registered_resources (scopePrefix path : String) (controller : Controller A Ω) {c : Char} {behind : Text}
    (h : path.toList = '/' :: c :: behind) :
    registered [.scope scopePrefix [] [.resources path controller]]
      = paths (announced (normalizePrefix scopePrefix ++ path).toList) := by
  have hid : (path ++ "/:id").toList = '/' :: c :: (behind ++ "/:id".toList) := by
    rw [String.toList_append, h]
    rfl
  rw [registered_eq]
  unfold declared BuilderCall.declared ScopeCall.declared announced
  simp only [List.flatMap_cons, List.flatMap_nil, List.append_nil, List.map_cons, List.map_nil,
    fullPath_slash _ h, fullPath_slash _ hid, String.ofList_toList, String.append_assoc]

theorem registered_plural (snake : Text) (controller : Controller A Ω) :
    registered [.scope (String.ofList ('/' :: pluralize snake)) []
        [.resources (String.ofList ('/' :: pluralize snake)) controller]]
      = paths (announced ('/' :: pluralize snake ++ '/' :: pluralize snake)) := by
  obtain ⟨c, behind, hcons⟩ := List.exists_cons_of_ne_nil (List.append_ne_nil_of_right_ne_nil snake
    (List.cons_ne_nil 's' []))
  have hpath : (String.ofList ('/' :: pluralize snake)).toList = '/' :: c :: behind := by
    rw [String.toList_ofList, pluralize, hcons]
  rw [registered_resources _ _ controller hpath, normalizePrefix_plural, String.toList_append,
    String.toList_ofList]

/--
**What the line of a route registers instead.**  For every name without quotation
marks, backslashes and parentheses, the five routes are those that are announced,
but under the plural twice.
-/
theorem routeLine_registers (controllers : Text → Controller A Ω) {name : Text}
    (hquote : '\x22' ∉ (normalizeName t name).1) (hescape : '\x5c' ∉ (normalizeName t name).1)
    (hparen : ')' ∉ (normalizeName t name).2) :
    ∃ call, evalRouteLine controllers
        (routeLine (pluralize (normalizeName t name).1) (normalizeName t name).2) = some call ∧
      registered [call] = paths (announced
        ('/' :: pluralize (normalizeName t name).1 ++ '/' :: pluralize (normalizeName t name).1)) := by
  have hquote' : '\x22' ∉ pluralize (normalizeName t name).1 := by simp [pluralize, hquote]
  have hescape' : '\x5c' ∉ pluralize (normalizeName t name).1 := by simp [pluralize, hescape]
  exact ⟨_, evalRouteLine_routeLine controllers hquote' hescape' hparen, registered_plural _ _⟩

/-! ### The announced path is no route -/

theorem mem_normalizePrefix {x : Char} {scopePrefix : String} (h : x ∈ (normalizePrefix scopePrefix).toList) :
    x = '/' ∨ x ∈ scopePrefix.toList := by
  have htrim : ∀ y ∈ trimEndMatches scopePrefix.toList '/', y ∈ scopePrefix.toList := by
    intro y hy
    unfold trimEndMatches at hy
    simpa using (List.dropWhile_sublist _).subset (List.mem_reverse.mp hy)
  unfold normalizePrefix at h
  rw [String.toList_ofList] at h
  by_cases hslash : startsWith (trimEndMatches scopePrefix.toList '/') ['/'] = true
  · rw [if_pos hslash] at h
    exact Or.inr (htrim x h)
  · rw [if_neg hslash, List.mem_cons] at h
    exact h.imp id (htrim x)

theorem mem_fullPath {x : Char} {scopePrefix path : String} (h : x ∈ (fullPath scopePrefix path).toList) :
    x ∈ scopePrefix.toList ∨ x = '/' ∨ x ∈ path.toList := by
  unfold fullPath at h
  by_cases hroot : path = "/" ∨ path = ""
  · rw [if_pos hroot] at h
    exact Or.inl h
  · rw [if_neg hroot] at h
    by_cases hslash : startsWith path.toList ['/'] = true
    · rw [if_pos hslash, String.toList_append, List.mem_append] at h
      exact h.imp id Or.inr
    · rw [if_neg hslash, String.toList_append, String.toList_append, List.mem_append, List.mem_append] at h
      obtain (h | h) | h := h
      · exact Or.inl h
      · exact Or.inr (Or.inl (List.mem_singleton.mp h))
      · exact Or.inr (Or.inr h)

/-- The GET routes of a scope with nothing but resources in it. -/
theorem get_registered {scopePrefix path : String} {controller : Controller A Ω} {p : String}
    (h : (Method.get, p) ∈ registered [.scope scopePrefix [] [.resources path controller]]) :
    ∃ suffix, '\x22' ∉ suffix.toList ∧
      p = colonToBrace (fullPath (normalizePrefix scopePrefix) (path ++ suffix)) := by
  rw [registered_eq] at h
  simp only [paths, declared, BuilderCall.declared, ScopeCall.declared, List.flatMap_cons, List.flatMap_nil,
    List.append_nil, List.map_cons, List.map_nil, List.mem_cons, Prod.mk.injEq, List.not_mem_nil, or_false,
    reduceCtorEq, false_and, true_and] at h
  obtain rfl | rfl := h
  · exact ⟨"", by decide, by rw [String.append_empty]⟩
  · exact ⟨"/:id", by decide, rfl⟩

/--
**No generated line registers what is announced.**  For every name, and whatever the
controllers are: the routes that the injected line registers are not GET and POST on
`/{plural}` and GET, PUT and DELETE on `/{plural}/:id`.
-/
theorem routeLine_never_agrees (t : Tables) (controllers : Text → Controller A Ω) (name : Text) :
    ¬AgreesOnPaths t controllers name := by
  rintro ⟨call, heval, hroutes⟩
  obtain ⟨scopePrefix, path, controller, rfl, hquote, hquote', hplural⟩ := evalRouteLine_eq_some heval
  generalize hsnake : (normalizeName t name).1 = snake at hroutes hplural
  -- GET on `/{plural}` is announced
  have hget : (Method.get, colonToBrace (String.ofList ('/' :: pluralize snake)))
      ∈ registered [.scope (String.ofList scopePrefix) [] [.resources (String.ofList path) controller]] :=
    (hroutes _).mpr (List.mem_cons_self ..)
  by_cases hmem : '\x22' ∈ pluralize snake
  · -- a literal of the line ends at the quotation mark
    obtain ⟨suffix, hsuffix, heq⟩ := get_registered hget
    have hin : '\x22' ∈ (colonToBrace (String.ofList ('/' :: pluralize snake))).toList := by
      rw [mem_colonToBrace (by decide), String.toList_ofList]
      exact List.mem_cons_of_mem _ hmem
    rw [heq, mem_colonToBrace (by decide)] at hin
    obtain hin | hin | hin := mem_fullPath hin
    · obtain hin | hin := mem_normalizePrefix hin
      · exact absurd hin (by decide)
      · exact hquote (by simpa using hin)
    · exact absurd hin (by decide)
    · rw [String.toList_append, String.toList_ofList, List.mem_append] at hin
      exact hin.elim hquote' hsuffix
  · obtain ⟨rfl, rfl⟩ := hplural hmem
    rw [registered_plural] at hget
    have hs : 's' ∈ (String.ofList ('/' :: pluralize snake)).toList := by simp [pluralize]
    have hmore : ∀ suffix : Text,
        (String.ofList ('/' :: pluralize snake ++ suffix)).toList = '/' :: (pluralize snake ++ suffix) :=
      fun suffix => String.toList_ofList
    have hne : ∀ suffix : Text,
        colonToBrace (String.ofList ('/' :: pluralize snake ++ ('/' :: pluralize snake ++ suffix)))
          ≠ colonToBrace (String.ofList ('/' :: pluralize snake)) := by
      intro suffix
      rw [String.ofList_append]
      exact colonToBrace_append_ne hs (by decide) (hmore suffix)
    simp only [paths, announced, List.map_cons, List.map_nil, List.mem_cons, Prod.mk.injEq, List.not_mem_nil,
      or_false, reduceCtorEq, false_and, true_and] at hget
    obtain hget | hget := hget
    · refine hne [] ?_
      rw [List.append_nil]
      exact hget.symm
    · refine hne "/:id".toList ?_
      rw [← List.append_assoc, String.ofList_append, String.ofList_toList]
      exact hget.symm

/-- The resource `Post`: what is announced, and what is registered. -/
theorem post_routes :
    announced ('/' :: pluralize (normalizeName ascii "Post".toList).1)
        = [(.get, "/posts"), (.get, "/posts/:id"), (.post, "/posts"), (.put, "/posts/:id"),
          (.delete, "/posts/:id")] ∧
      ((evalRouteLine (fun _ => ({} : Controller Unit Unit))
          (routeLine (pluralize (normalizeName ascii "Post".toList).1) (normalizeName ascii "Post".toList).2)).map
        fun call => registered [call])
        = some [(.get, "/posts/posts"), (.get, "/posts/posts/\x7bid\x7d"), (.post, "/posts/posts"),
          (.put, "/posts/posts/\x7bid\x7d"), (.delete, "/posts/posts/\x7bid\x7d")] ∧
      ¬AgreesOnPaths ascii (fun _ => ({} : Controller Unit Unit)) "Post".toList := by
  have hregistered : ((evalRouteLine (fun _ => ({} : Controller Unit Unit))
      (routeLine (pluralize (normalizeName ascii "Post".toList).1) (normalizeName ascii "Post".toList).2)).map
        fun call => registered [call])
      = some [(.get, "/posts/posts"), (.get, "/posts/posts/\x7bid\x7d"), (.post, "/posts/posts"),
        (.put, "/posts/posts/\x7bid\x7d"), (.delete, "/posts/posts/\x7bid\x7d")] := by
    decide +kernel
  refine ⟨by decide +kernel, hregistered, ?_⟩
  rintro ⟨call, heval, hroutes⟩
  rw [heval] at hregistered
  have hlist : registered [call] = _ := Option.some.inj hregistered
  have hget := hroutes (.get, "/posts")
  rw [hlist] at hget
  have hannounced : (Method.get, "/posts")
      ∈ paths (announced ('/' :: pluralize (normalizeName ascii "Post".toList).1)) := by
    decide +kernel
  exact absurd (hget.mpr hannounced) (by decide)

end Mahalo.Cargo
