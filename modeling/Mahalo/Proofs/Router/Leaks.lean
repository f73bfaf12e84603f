/-
Keys that `resolve` leaks.

The keys of a route are the names of its segments of the form `:name`, and are
leaked once.  The names `matchit` reports are read off the path it was given, in
braces.  A parameter that is written in braces to begin with, or as a catch-all
`:*name`, has no key, so `resolve` leaks its name again on every request.  Exactly
the routes that have every parameter as a plain `:name` too are free of this.
-/
import Mahalo.Proofs.Router.Reverse

namespace Mahalo.Router

open Patterns

variable {A Ω : Type}

/-- The keys that `resolve` does not find among those of the route, and leaks. -/
def leakedKeys (matchit : Matchit) (r : MahaloRouter A Ω) (method : Method) (path : String) :
    Except Panic (List String) := do
  match ← r.matchRoute matchit method path with
  | none => return []
  | some (routeIdx, params) =>
      match r.routes[routeIdx]? with
      | none => throw .index
      | some route =>
          return (params.map Prod.fst).filter fun k => (route.paramKeys.find? (· == k)).isNone

/-! ### The names `matchit` reports -/

/--
What stands in braces; two braces in a row stand for one that is text.  `opened` is
what has been read of a name.
-/
def braceNames : Option (List Char) → List Char → List (List Char)
  | _, [] => []
  | opened, [c] => if c = '\x7d' then opened.toList else []
  | opened, c :: d :: rest =>
      if (c = '\x7b' ∨ c = '\x7d') ∧ d = c then braceNames (opened.map (· ++ [c])) rest
      else match opened with
        | none => braceNames (if c = '\x7b' then some [] else none) (d :: rest)
        | some name =>
            if c = '\x7d' then name :: braceNames none (d :: rest)
            else braceNames (some (name ++ [c])) (d :: rest)

/-- The parameters of a segment, a catch-all without its star. -/
def reportedIn (segment : List Char) : List String :=
  (braceNames none segment).map fun name =>
    String.ofList ((RustStd.stripPrefix name ['*']).getD name)

def reportedNames (matchitPath : String) : List String := (pieces matchitPath).flatMap reportedIn

/-- A match has the parameters of the path that was inserted, under the names they have there. -/
def ReportsNames (matchit : Matchit) : Prop :=
  ∀ {router : Inserted} {path : String} {idx : Nat} {params : PathParams},
    Accepted matchit router → matchit.find router path = some (idx, params) →
      ∃ pattern, (pattern, idx) ∈ router ∧ params.map Prod.fst = reportedNames pattern

example : reportedNames "/\x7bid\x7d/\x7b\x7bb\x7d\x7d/\x7b*rest\x7d" = ["id", "rest"] := by decide +kernel

/-! ### Parameters that have a key -/

/-- A parameter as `:name`: without a brace in its name, or a star in front. -/
def isPlainParam (segment : List Char) : Bool :=
  match RustStd.stripPrefix segment [':'] with
  | some name => !RustStd.startsWith name ['*'] && !name.contains '\x7b' && !name.contains '\x7d'
  | none => false

/-- Every parameter that is written in another way, in braces or as a catch-all, is one as `:name` too. -/
def ColonNamed (full : String) : Prop :=
  ∀ segment ∈ segmentsOf full.toList, isPlainParam segment = false →
    ∀ name ∈ reportedIn (braced segment), ':' :: name.toList ∈ segmentsOf full.toList

instance (full : String) : Decidable (ColonNamed full) :=
  inferInstanceAs (Decidable (∀ segment ∈ segmentsOf full.toList, isPlainParam segment = false →
    ∀ name ∈ reportedIn (braced segment), ':' :: name.toList ∈ segmentsOf full.toList))

theorem mem_extractParamKeys {segments : List (List Char)} {name : String} :
    name ∈ extractParamKeys (segments.map String.ofList) ↔ ':' :: name.toList ∈ segments := by
  unfold extractParamKeys
  rw [List.filterMap_map, List.mem_filterMap]
  simp only [Function.comp, String.toList_ofList, Option.map_eq_some_iff, RustStd.stripPrefix_eq_some]
  constructor
  · rintro ⟨segment, hsegment, rest, rfl, rfl⟩
    simpa using hsegment
  · intro h
    exact ⟨_, h, name.toList, rfl, String.ofList_toList⟩

/-- Up to the closing brace a name without braces is read as it is. -/
theorem braceNames_name (name : List Char) (hopen : '\x7b' ∉ name) (hclose : '\x7d' ∉ name) :
    ∀ read, braceNames (some read) (name ++ ['\x7d']) = [read ++ name] := by
  induction name with
  | nil => intro read; simp [braceNames]
  | cons c name ih =>
      intro read
      simp only [List.mem_cons, not_or] at hopen hclose
      have hc : c ≠ '\x7b' := Ne.symm hopen.1
      have hc' : c ≠ '\x7d' := Ne.symm hclose.1
      have hrest := ih hopen.2 hclose.2 (read ++ [c])
      cases hcs : name ++ ['\x7d'] with
      | nil => simp at hcs
      | cons d rest =>
          rw [hcs] at hrest
          rw [List.cons_append, hcs]
          simp [braceNames, hc, hc', hrest]

theorem reportedIn_plain {segment : List Char} (h : isPlainParam segment = true) :
    ∃ name : String, segment = ':' :: name.toList ∧ reportedIn (braced segment) = [name] := by
  unfold isPlainParam at h
  cases hs : RustStd.stripPrefix segment [':'] with
  | none => rw [hs] at h; cases h
  | some name =>
      rw [hs] at h
      simp only [Bool.and_eq_true, Bool.not_eq_true', List.contains_eq_mem, decide_eq_false_iff_not] at h
      obtain ⟨⟨hstar, hopen⟩, hclose⟩ := h
      have hbraced : braced segment = '\x7b' :: (name ++ ['\x7d']) := by
        unfold braced
        rw [hs]
        rfl
      refine ⟨String.ofList name, ?_, ?_⟩
      · rw [RustStd.stripPrefix_eq_some.mp hs, String.toList_ofList]
        rfl
      · have hnone : RustStd.stripPrefix name ['*'] = none := by
          unfold RustStd.stripPrefix
          rw [hstar]
          rfl
        have hnames : braceNames none (braced segment) = [name] := by
          have hread := braceNames_name name hopen hclose []
          rw [hbraced]
          cases hcs : name ++ ['\x7d'] with
          | nil => simp at hcs
          | cons d rest =>
              have hd : d ≠ '\x7b' := by
                intro hd
                have hmem : d ∈ name ++ ['\x7d'] := by rw [hcs]; exact List.mem_cons_self ..
                rw [hd] at hmem
                simp [hopen] at hmem
              rw [hcs] at hread
              simpa [braceNames, hd] using hread
        unfold reportedIn
        rw [hnames, List.map_singleton, hnone, Option.getD_none]

/-- Empty pieces have no parameters. -/
theorem reportedNames_colonToBrace (full : String) :
    reportedNames (colonToBrace full)
      = (segmentsOf full.toList).flatMap fun segment => reportedIn (braced segment) := by
  have hcolon : colonToBrace full = rooted ((matchitPieces full).map braced) := colonToBrace_eq full
  have hfilter : ∀ ss : List (List Char), (ss.filter fun s => !s.isEmpty).flatMap
      (fun segment => reportedIn (braced segment)) = ss.flatMap fun segment => reportedIn (braced segment) := by
    intro ss
    induction ss with
    | nil => rfl
    | cons s ss ih =>
        cases s with
        | nil => rw [List.filter_cons_of_neg (by simp), ih, List.flatMap_cons]; rfl
        | cons c s => rw [List.filter_cons_of_pos (by simp), List.flatMap_cons, List.flatMap_cons, ih]
  rw [segmentsOf_eq_filter, hfilter, hcolon]
  unfold reportedNames
  cases hps : matchitPieces full with
  | nil => decide
  | cons p rest =>
      have hslash : ∀ s ∈ (p :: rest).map braced, '/' ∉ s := by
        intro s hs
        obtain ⟨t, ht, rfl⟩ := List.mem_map.mp hs
        exact slash_not_mem_braced (slash_not_mem_matchitPieces t (by rw [hps]; exact ht))
      rw [pieces_rooted (by simp) hslash, List.flatMap_cons, List.flatMap_map]
      rfl

/-- The names that are reported are keys of the route exactly when each is one of a plain parameter. -/
theorem reported_mem_keys_iff {route : Route A Ω} {d : Method × String} (hd : Declares route d) :
    (∀ name ∈ reportedNames route.matchitPath, name ∈ route.paramKeys) ↔ ColonNamed d.2 := by
  rw [hd.matchitPath, reportedNames_colonToBrace, hd.paramKeys, hd.segments, parseSegments_eq]
  simp only [mem_extractParamKeys]
  constructor
  · intro h segment hsegment _ name hname
    exact h name (List.mem_flatMap.mpr ⟨segment, hsegment, hname⟩)
  · intro h name hname
    obtain ⟨segment, hsegment, hname⟩ := List.mem_flatMap.mp hname
    cases hplain : isPlainParam segment with
    | false => exact h segment hsegment hplain name hname
    | true =>
        obtain ⟨name', hsegment', hnames⟩ := reportedIn_plain hplain
        rw [hnames, List.mem_singleton] at hname
        rw [hname, ← hsegment']
        exact hsegment

/-! ### Requests -/

/-- What a request that resolves was matched by, and the names of its parameters. -/
theorem matchRoute_reports {matchit : Matchit} (hmatchit : ReportsNames matchit) {r : MahaloRouter A Ω}
    {c : CompiledRouters} (hcompile : r.compile matchit = .ok c) (hcell : CellOf r c) {method : Method}
    {path : String} {idx : Nat} {params : PathParams}
    (hmatch : r.matchRoute matchit method path = .ok (some (idx, params))) :
    ∃ route, r.routes[idx]? = some route ∧ params.map Prod.fst = reportedNames route.matchitPath := by
  rw [matchRoute_eq hcompile hcell] at hmatch
  have hfound := Except.ok.inj hmatch
  by_cases hmethod : served method ∈ routeMethods
  · obtain ⟨hrouter, haccepted⟩ := compile_forMethod hcompile hmethod
    rw [hrouter, Option.bind_some] at hfound
    obtain ⟨pattern, hmem, hnames⟩ := hmatchit haccepted hfound
    obtain ⟨route, hroute, -, rfl⟩ := mem_entries.mp hmem
    exact ⟨route, hroute, hnames⟩
  · rw [forMethod_eq_none c hmethod] at hfound
    cases hfound

theorem leakedKeys_eq_nil_iff {matchit : Matchit} {r : MahaloRouter A Ω} {method : Method}
    {path : String} {idx : Nat} {params : PathParams} {route : Route A Ω}
    (hmatch : r.matchRoute matchit method path = .ok (some (idx, params)))
    (hroute : r.routes[idx]? = some route) :
    leakedKeys matchit r method path = .ok [] ↔ ∀ name ∈ params.map Prod.fst, name ∈ route.paramKeys := by
  have hleaked : leakedKeys matchit r method path
      = .ok ((params.map Prod.fst).filter fun k => (route.paramKeys.find? (· == k)).isNone) := by
    unfold leakedKeys
    rw [hmatch]
    simp [bind, Except.bind, hroute, pure, Except.pure]
  rw [hleaked, Except.ok.injEq, List.filter_eq_nil_iff]
  refine forall_congr' fun name => imp_congr_right fun _ => ?_
  simp

/--
**`resolve` leaks nothing exactly where every parameter has a plain name.**  For
every chain of builder calls that `compile` takes, and every request that resolves
to a route: each name that `matchit` reports is a key of the route, and `resolve`
leaks no key, if and only if the declared path has every parameter that is written
in braces or as a catch-all as a plain `:name` too.
-/
theorem resolve_leaks_nothing_iff (matchit : Matchit) (hmatchit : ReportsNames matchit)
    (calls : List (BuilderCall A Ω)) (compiled : Option CompiledRouters) {r : MahaloRouter A Ω}
    (hr : r = { build calls with compiled }) (c : CompiledRouters)
    (hcompile : r.compile matchit = .ok c) (hcell : CellOf r c) (method : Method) (path : String)
    (idx : Nat) (params : PathParams)
    (hmatch : r.matchRoute matchit method path = .ok (some (idx, params))) :
    ∃ route d, r.routes[idx]? = some route ∧ (declared calls)[idx]? = some d ∧
      ((∀ name ∈ reportedNames route.matchitPath, name ∈ route.paramKeys) ↔ ColonNamed d.2) ∧
      (leakedKeys matchit r method path = .ok [] ↔ ColonNamed d.2) := by
  obtain ⟨route, hroute, hnames⟩ := matchRoute_reports hmatchit hcompile hcell hmatch
  have hbuilt : (build calls).routes[idx]? = some route := by
    rw [hr] at hroute
    exact hroute
  obtain ⟨hidx, hget⟩ := List.getElem?_eq_some_iff.mp hbuilt
  have hdeclares := (build_declares calls).1
  have hidx' : idx < (declared calls).length := hdeclares.length_eq ▸ hidx
  have hd : Declares route (declared calls)[idx] := by
    have := hdeclares.get hidx hidx'
    simpa [hget] using this
  have hkeys := reported_mem_keys_iff hd
  refine ⟨route, _, hroute, List.getElem?_eq_getElem hidx', hkeys, ?_⟩
  rw [leakedKeys_eq_nil_iff hmatch hroute, hnames]
  exact hkeys

/-- A router that takes only paths whose parameters fill a segment. -/
def wholeSegments : Matchit where
  accepts := fun router path =>
    byPriority.accepts router path && decide (reportedNames path = keys (patternOf path))
  find := byPriority.find

theorem wholeSegments_reportsNames : ReportsNames wholeSegments := by
  intro router path idx params haccepted hfind
  have hpriority : Accepted byPriority router := by
    intro before entry after h
    exact (Bool.and_eq_true_iff.mp (haccepted before entry after h)).1
  obtain ⟨pattern, hmem, hmatch⟩ := byPriority_segmentwise.sound hpriority hfind
  refine ⟨pattern, hmem, ?_⟩
  have hnames : reportedNames pattern = keys (patternOf pattern) := by
    obtain ⟨before, after, hsplit⟩ := List.append_of_mem hmem
    simpa using (Bool.and_eq_true_iff.mp (haccepted before _ after hsplit)).2
  obtain ⟨bound, hbound, rfl⟩ := Option.map_eq_some_iff.mp hmatch
  rw [hnames, ← matchPieces_keys hbound, List.map_map]
  rfl

/-- A router with one GET route. -/
def oneRoute (path : String) : List (BuilderCall Unit Unit) := [.route .get path (.syncPlugFn id) none]

theorem resolve_leaks_nothing_iff_users :
    leakedKeys wholeSegments (build (oneRoute "/users/:id")) .get "/users/7" = .ok [] := by
  obtain ⟨route, d, -, hd, -, hleaks⟩ := resolve_leaks_nothing_iff wholeSegments
    wholeSegments_reportsNames (oneRoute "/users/:id") none rfl
    { CompiledRouters.empty with get := [("/users/\x7bid\x7d", 0)] } (by rfl) (Or.inl rfl) .get "/users/7"
    0 [("id", "7")] (by rfl)
  refine hleaks.mpr ?_
  have hdeclared : (declared (oneRoute "/users/:id"))[0]? = some (.get, "/users/:id") := by rfl
  rw [hdeclared] at hd
  rw [← Option.some.inj hd]
  decide +kernel

/-- A parameter in braces, and a catch-all with a colon: neither name is a key. -/
theorem braces_leaked :
    (build (oneRoute "/users/\x7bid\x7d")).matchRoute wholeSegments .get "/users/7"
        = .ok (some (0, [("id", "7")])) ∧
      leakedKeys wholeSegments (build (oneRoute "/users/\x7bid\x7d")) .get "/users/7" = .ok ["id"] ∧
      (build (oneRoute "/users/\x7bid\x7d")).routes.map
        (fun route => (reportedNames route.matchitPath, route.paramKeys)) = [(["id"], [])] ∧
      (build (oneRoute "/files/:*path")).routes.map
        (fun route => (reportedNames route.matchitPath, route.paramKeys)) = [(["path"], ["*path"])] := by
  refine ⟨by rfl, by rfl, ?_, ?_⟩ <;> decide +kernel

end Mahalo.Router
