/-
Reverse and forward routing.

`path_for` fills in the segments of a route, from which every empty one was
dropped; the route is found under a path that keeps the empty segments behind the
first that is not.  So the path that `path_for` builds is matched by its own route
exactly when there are none of these, and no static text that `matchit` takes for
a parameter.

`declared` is what a chain of builder calls declares: for each route, in order, its
method and the whole path it was given.
-/
import Mathlib.Data.List.Induction
import Mahalo.Proofs.Router.Compile

namespace Mahalo.Router

open Patterns

variable {A Ω : Type}

/-! ### What is declared -/

/-- A path behind the prefix of its scope. -/
def fullPath (scopePrefix path : String) : String :=
  if path = "/" ∨ path = "" then scopePrefix
  else if RustStd.startsWith path.toList ['/'] then scopePrefix ++ path
  else scopePrefix ++ "/" ++ path

def ScopeCall.declared : ScopeCall A Ω → List (Method × String)
  | .route method path _ _ => [(method, path)]
  | .resources path _ =>
      [(.get, path), (.get, path ++ "/:id"), (.post, path), (.put, path ++ "/:id"),
        (.delete, path ++ "/:id")]

def BuilderCall.declared : BuilderCall A Ω → List (Method × String)
  | .pipeline _ => []
  | .scope scopePrefix _ f =>
      (f.flatMap ScopeCall.declared).map fun (method, path) =>
        (method, fullPath (normalizePrefix scopePrefix) path)
  | .route method path _ _ => [(method, path)]

def declared (calls : List (BuilderCall A Ω)) : List (Method × String) :=
  calls.flatMap BuilderCall.declared

/-- The route is what was declared. -/
structure Declares (route : Route A Ω) (d : Method × String) : Prop where
  method : route.method = d.1
  matchitPath : route.matchitPath = colonToBrace d.2
  segments : route.segments = parseSegments d.2
  paramKeys : route.paramKeys = extractParamKeys route.segments

/-! ### The segments of a scoped route -/

theorem segmentsOf_trimEnd (s : List Char) :
    segmentsOf (RustStd.trimEndMatches s '/') = segmentsOf s := by
  unfold RustStd.trimEndMatches
  have hrev : ∀ l : List Char,
      segmentsOf (l.dropWhile (· == '/')).reverse = segmentsOf l.reverse := by
    intro l
    induction l with
    | nil => rfl
    | cons x l ih =>
        by_cases hx : x = '/'
        · subst hx
          rw [List.dropWhile_cons_of_pos rfl, ih, List.reverse_cons, segmentsOf_append,
            segmentsOf_nil, List.append_nil]
        · rw [List.dropWhile_cons_of_neg (by simpa using hx)]
  rw [hrev, List.reverse_reverse]

theorem segmentsOf_normalizePrefix (scopePrefix : String) :
    segmentsOf (normalizePrefix scopePrefix).toList = segmentsOf scopePrefix.toList := by
  unfold normalizePrefix
  rw [String.toList_ofList]
  by_cases h : RustStd.startsWith (RustStd.trimEndMatches scopePrefix.toList '/') ['/']
  · rw [if_pos h, segmentsOf_trimEnd]
  · rw [if_neg h, segmentsOf_cons, segmentsOf_trimEnd]

theorem startsWith_slash {s : List Char} (h : RustStd.startsWith s ['/'] = true) :
    ∃ rest, s = '/' :: rest := by
  have hstrip : RustStd.stripPrefix s ['/'] = some (s.drop 1) := by
    unfold RustStd.stripPrefix
    rw [if_pos h]
    rfl
  exact ⟨_, RustStd.stripPrefix_eq_some.mp hstrip⟩

/-- The segments of the prefix and those of the path are the segments of the whole. -/
theorem parseSegments_fullPath (scopePrefix path : String) :
    parseSegments (fullPath (normalizePrefix scopePrefix) path)
      = parseSegments scopePrefix ++ parseSegments path := by
  simp only [parseSegments_eq, ← List.map_append]
  congr 1
  rw [← segmentsOf_normalizePrefix scopePrefix]
  unfold fullPath
  by_cases hroot : path = "/" ∨ path = ""
  · rw [if_pos hroot]
    have hnone : segmentsOf path.toList = [] := by
      obtain rfl | rfl := hroot <;> rfl
    rw [hnone, List.append_nil]
  · rw [if_neg hroot]
    by_cases hslash : RustStd.startsWith path.toList ['/']
    · obtain ⟨rest, hrest⟩ := startsWith_slash hslash
      rw [if_pos hslash, String.toList_append, hrest, segmentsOf_append, segmentsOf_cons]
    · rw [if_neg hslash, String.toList_append, String.toList_append,
        List.append_assoc]
      exact segmentsOf_append _ path.toList

/-! ### The routes of a chain of calls -/

/-- The builder of a scope, whatever it has added so far. -/
structure BuilderOf (scopePrefix : String) (s : ScopeBuilder A Ω) : Prop where
  normalized : s.scopePrefix = normalizePrefix scopePrefix
  parsed : s.prefixSegments = parseSegments scopePrefix

/-- What a scope's calls have declared, with the prefix. -/
def behind (scopePrefix : String) (ds : List (Method × String)) : List (Method × String) :=
  ds.map fun (method, path) => (method, fullPath (normalizePrefix scopePrefix) path)

theorem addRoute_declares {scopePrefix : String} {s : ScopeBuilder A Ω} {ds : List (Method × String)}
    (hs : BuilderOf scopePrefix s) (hroutes : List.Forall₂ Declares s.routes (behind scopePrefix ds))
    (method : Method) (path : String) (name : Option String) (handler : Handler A Ω) :
    BuilderOf scopePrefix (s.addRoute method path name handler) ∧
      List.Forall₂ Declares (s.addRoute method path name handler).routes
        (behind scopePrefix (ds ++ [(method, path)])) := by
  refine ⟨⟨hs.normalized, hs.parsed⟩, ?_⟩
  unfold behind
  rw [List.map_append]
  refine List.rel_append hroutes (List.Forall₂.cons ?_ List.Forall₂.nil)
  refine { method := rfl, matchitPath := ?_, segments := ?_, paramKeys := rfl }
  · show buildMatchitPath s.scopePrefix path = _
    rw [hs.normalized]
    rfl
  · show s.prefixSegments ++ parseSegments path = _
    rw [hs.parsed, parseSegments_fullPath]

theorem scopeCall_declares {scopePrefix : String} {s : ScopeBuilder A Ω}
    {ds : List (Method × String)} (hs : BuilderOf scopePrefix s)
    (hroutes : List.Forall₂ Declares s.routes (behind scopePrefix ds)) (call : ScopeCall A Ω) :
    BuilderOf scopePrefix (call.apply s) ∧
      List.Forall₂ Declares (call.apply s).routes (behind scopePrefix (ds ++ call.declared)) := by
  cases call with
  | route method path name plug => exact addRoute_declares hs hroutes method path name (.plug plug)
  | resources path controller =>
      obtain ⟨hs, hroutes⟩ := addRoute_declares hs hroutes .get path _ (.controller controller "index")
      obtain ⟨hs, hroutes⟩ := addRoute_declares hs hroutes .get (path ++ "/:id") _ (.controller controller "show")
      obtain ⟨hs, hroutes⟩ := addRoute_declares hs hroutes .post path _ (.controller controller "create")
      obtain ⟨hs, hroutes⟩ := addRoute_declares hs hroutes .put (path ++ "/:id") _ (.controller controller "update")
      obtain ⟨hs, hroutes⟩ := addRoute_declares hs hroutes .delete (path ++ "/:id") _ (.controller controller "delete")
      simp only [List.append_assoc] at hroutes
      exact ⟨hs, hroutes⟩

theorem scopeCalls_declares {scopePrefix : String} (f : List (ScopeCall A Ω)) :
    ∀ {s : ScopeBuilder A Ω} {ds : List (Method × String)}, BuilderOf scopePrefix s →
      List.Forall₂ Declares s.routes (behind scopePrefix ds) →
      List.Forall₂ Declares (f.foldl ScopeCall.apply s).routes
        (behind scopePrefix (ds ++ f.flatMap ScopeCall.declared)) := by
  induction f with
  | nil =>
      intro s ds hs hroutes
      rw [List.flatMap_nil, List.append_nil]
      exact hroutes
  | cons call rest ih =>
      intro s ds hs hroutes
      obtain ⟨hs, hroutes⟩ := scopeCall_declares hs hroutes call
      rw [List.flatMap_cons, ← List.append_assoc]
      exact ih hs hroutes

/-- Every name points to a route. -/
def NamesRoutes (r : MahaloRouter A Ω) : Prop :=
  ∀ name idx, r.nameIndex.lookup name = some idx → idx < r.routes.length

theorem lookup_insert_cases {index : AList fun _ : String => Nat} {name name' : String} {i idx : Nat}
    (h : (index.insert name i).lookup name' = some idx) : idx = i ∨ index.lookup name' = some idx := by
  by_cases hname : name' = name
  · subst hname
    rw [AList.lookup_insert] at h
    exact Or.inl (Option.some.inj h).symm
  · rw [AList.lookup_insert_ne hname] at h
    exact Or.inr h

theorem indexNames_lt (routes : List (Route A Ω)) :
    ∀ {i n : Nat} {index : AList fun _ : String => Nat}, i + routes.length ≤ n →
      (∀ name idx, index.lookup name = some idx → idx < n) →
      ∀ name idx, (MahaloRouter.indexNames i routes index).lookup name = some idx → idx < n := by
  induction routes with
  | nil =>
      intro i n index _ hindex
      exact hindex
  | cons route rest ih =>
      intro i n index hn hindex
      rw [List.length_cons] at hn
      rw [MahaloRouter.indexNames]
      refine ih (by omega) ?_
      intro name idx h
      cases hname : route.name with
      | none =>
          rw [hname] at h
          exact hindex name idx h
      | some routeName =>
          rw [hname] at h
          obtain rfl | h := lookup_insert_cases h
          · omega
          · exact hindex name idx h

theorem builderCall_namesRoutes {r : MahaloRouter A Ω} (h : NamesRoutes r) (call : BuilderCall A Ω) :
    NamesRoutes (call.apply r) := by
  cases call with
  | pipeline p => exact h
  | scope scopePrefix pipelineNames f =>
      refine indexNames_lt _ ?_ fun name idx hidx => ?_
      · exact Nat.le_of_eq List.length_append.symm
      · have := h name idx hidx
        have hlen : (BuilderCall.apply r (.scope scopePrefix pipelineNames f)).routes.length
            = r.routes.length + _ := List.length_append
        omega
  | route method path plug name =>
      intro name' idx hidx
      have hlen : (BuilderCall.apply r (.route method path plug name)).routes.length
          = r.routes.length + 1 := List.length_append
      cases name with
      | none =>
          have := h name' idx hidx
          omega
      | some n =>
          obtain rfl | hidx := lookup_insert_cases hidx
          · omega
          · have := h name' idx hidx
            omega

theorem builderCall_declares {r : MahaloRouter A Ω} {ds : List (Method × String)}
    (h : List.Forall₂ Declares r.routes ds) (call : BuilderCall A Ω) :
    List.Forall₂ Declares (call.apply r).routes (ds ++ call.declared) := by
  cases call with
  | pipeline p =>
      rw [BuilderCall.declared, List.append_nil]
      exact h
  | scope scopePrefix pipelineNames f =>
      refine List.rel_append h ?_
      have hnew : BuilderOf (A := A) (Ω := Ω) scopePrefix
          (.new (normalizePrefix scopePrefix) (parseSegments scopePrefix) pipelineNames) := ⟨rfl, rfl⟩
      have hnone : List.Forall₂ Declares ([] : List (Route A Ω)) (behind scopePrefix []) :=
        List.Forall₂.nil
      exact scopeCalls_declares f hnew hnone
  | route method path plug name =>
      refine List.rel_append h (List.Forall₂.cons ?_ List.Forall₂.nil)
      exact { method := rfl, matchitPath := rfl, segments := rfl, paramKeys := rfl }

/-- The routes of a router are those its builder calls declare, and its names point to them. -/
theorem build_declares (calls : List (BuilderCall A Ω)) :
    List.Forall₂ Declares (build calls).routes (declared calls) ∧ NamesRoutes (build calls) := by
  induction calls using List.reverseRecOn with
  | nil =>
      refine ⟨List.Forall₂.nil, ?_⟩
      intro name idx h
      cases h
  | append_singleton calls call ih =>
      have hbuild : build (calls ++ [call]) = call.apply (build calls) := by
        unfold build
        rw [List.foldl_append]
        rfl
      have hdeclared : declared (calls ++ [call]) = declared calls ++ call.declared := by
        unfold declared
        rw [List.flatMap_append, List.flatMap_singleton]
      rw [hbuild, hdeclared]
      exact ⟨builderCall_declares ih.1 call, builderCall_namesRoutes ih.2 call⟩

/-! ### Filling in a path -/

/-- The value that is given for a parameter. -/
def lookup (params : List (String × String)) (key : String) : Option String :=
  (params.find? fun param => param.1 == key).map Prod.snd

/-- Every parameter has a value, and none is empty or has a slash. -/
def Assigned (params : List (String × String)) (paramKeys : List String) : Prop :=
  ∀ key ∈ paramKeys, ∃ value, lookup params key = some value ∧ value ≠ "" ∧ '/' ∉ value.toList

/-- The parameters with their values, in the order of the keys. -/
def bindings (paramKeys : List String) (params : List (String × String)) : PathParams :=
  paramKeys.map fun key => (key, (lookup params key).getD "")

/-- A segment of the path that is built. -/
def filled (params : List (String × String)) (segment : List Char) : List Char :=
  (declaredPiece segment).fill fun key => ((lookup params key).getD "").toList

variable {params : List (String × String)} {segments : List (List Char)}

theorem partFor_eq {segment : List Char} (h : Assigned params (keys [declaredPiece segment])) :
    MahaloRouter.partFor params (String.ofList segment)
      = some (String.ofList (filled params segment)) := by
  unfold MahaloRouter.partFor filled
  rw [String.toList_ofList]
  unfold declaredPiece at h ⊢
  cases hs : RustStd.stripPrefix segment [':'] with
  | none => rfl
  | some name =>
      rw [hs] at h
      obtain ⟨value, hvalue, -, -⟩ := h (String.ofList name) (List.mem_cons_self ..)
      show lookup params (String.ofList name) = _
      simp only [Piece.fill, hvalue, Option.getD_some, String.ofList_toList]

theorem assigned_cons {segment : List Char}
    (h : Assigned params (keys ((segment :: segments).map declaredPiece))) :
    Assigned params (keys [declaredPiece segment]) ∧
      Assigned params (keys (segments.map declaredPiece)) := by
  rw [List.map_cons] at h
  constructor
  · intro key hkey
    refine h key ?_
    cases hp : declaredPiece segment with
    | lit text => rw [hp] at hkey; cases hkey
    | param k => rw [hp] at hkey; simp_all
  · intro key hkey
    refine h key ?_
    cases declaredPiece segment <;> simp [hkey]

theorem mapM_partFor (h : Assigned params (keys (segments.map declaredPiece))) :
    (segments.map String.ofList).mapM (MahaloRouter.partFor params)
      = some ((segments.map (filled params)).map String.ofList) := by
  induction segments with
  | nil => rfl
  | cons segment rest ih =>
      obtain ⟨hhead, hrest⟩ := assigned_cons h
      rw [List.map_cons, List.mapM_cons, partFor_eq hhead, ih hrest]
      rfl

/-- `path_for` joins the filled segments. -/
theorem pathFor_eq {r : MahaloRouter A Ω} {name : String} {idx : Nat} {route : Route A Ω}
    {full : String} (hname : r.nameIndex.lookup name = some idx)
    (hroute : r.routes[idx]? = some route) (hsegments : route.segments = parseSegments full)
    (h : Assigned params (keys ((segmentsOf full.toList).map declaredPiece))) :
    r.pathFor name params = .ok (some (rooted ((segmentsOf full.toList).map (filled params)))) := by
  unfold MahaloRouter.pathFor rooted
  simp only [hname, hroute]
  rw [hsegments, parseSegments_eq, mapM_partFor h, Option.map_some, List.map_map]
  have htoList : String.toList ∘ String.ofList = id := funext fun _ => String.toList_ofList
  rw [htoList, List.map_id]

theorem filled_slash {segment : List Char} (hslash : '/' ∉ segment)
    (h : Assigned params (keys [declaredPiece segment])) : '/' ∉ filled params segment := by
  unfold filled
  cases hp : declaredPiece segment with
  | lit text =>
      have htext : text = segment := by
        unfold declaredPiece at hp
        cases hs : RustStd.stripPrefix segment [':'] <;> simp_all
      rw [htext]
      exact hslash
  | param key =>
      obtain ⟨value, hvalue, -, hfree⟩ := h key (by rw [hp]; exact List.mem_cons_self ..)
      simpa [Piece.fill, hvalue] using hfree

theorem filled_noSlash (h : Assigned params (keys (segments.map declaredPiece)))
    (hslash : ∀ s ∈ segments, '/' ∉ s) : ∀ t ∈ segments.map (filled params), '/' ∉ t := by
  induction segments with
  | nil => intro t ht; cases ht
  | cons s rest ih =>
      obtain ⟨hhead, hrest⟩ := assigned_cons h
      intro t ht
      obtain rfl | ht := List.mem_cons.mp ht
      · exact filled_slash (hslash s (List.mem_cons_self ..)) hhead
      · exact ih hrest (fun s hs => hslash s (List.mem_cons_of_mem _ hs)) t ht

/-! ### The path that is built, and the path under which the route is found -/

/--
From the first segment that is not empty on there is no empty one, and none of
static text that `matchit` would take for a parameter.
-/
def Clean (full : String) : Prop := ∀ s ∈ matchitPieces full, s ≠ [] ∧ bracedName s = none

instance (full : String) : Decidable (Clean full) :=
  inferInstanceAs (Decidable (∀ s ∈ matchitPieces full, s ≠ [] ∧ bracedName s = none))

theorem segmentsOf_eq_filter (full : String) :
    segmentsOf full.toList = (matchitPieces full).filter fun s => !s.isEmpty := by
  unfold segmentsOf matchitPieces
  change (pieces full).filter _ = _
  generalize pieces full = ps
  induction ps with
  | nil => rfl
  | cons p ps ih =>
      by_cases hp : p = []
      · subst hp
        rw [List.dropWhile_cons_of_pos rfl, List.filter_cons_of_neg (by simp), ih]
      · rw [List.dropWhile_cons_of_neg (by simpa using hp)]

/-- Static text in braces only adds parameters. -/
theorem keys_braced_length (ss : List (List Char)) :
    (keys (ss.map declaredPiece)).length ≤ (keys (ss.map fun s => pieceOf (braced s))).length := by
  induction ss with
  | nil => exact Nat.le_refl _
  | cons s ss ih =>
      simp only [List.map_cons, pieceOf_braced s]
      cases hb : bracedName s with
      | none => cases declaredPiece s <;> simpa using ih
      | some name =>
          cases hp : declaredPiece s with
          | lit text => simpa using Nat.le_succ_of_le ih
          | param key => simpa using ih

/-- So where the parameters are those that were declared, there is none. -/
theorem keys_braced {ss : List (List Char)}
    (h : (keys (ss.map fun s => pieceOf (braced s))).length = (keys (ss.map declaredPiece)).length) :
    ∀ s ∈ ss, bracedName s = none := by
  induction ss with
  | nil => intro s hs; cases hs
  | cons s ss ih =>
      have hle := keys_braced_length ss
      simp only [List.map_cons, pieceOf_braced s] at h
      cases hb : bracedName s with
      | none =>
          rw [hb, Option.elim_none] at h
          have hrest : (keys (ss.map fun s => pieceOf (braced s))).length
              = (keys (ss.map declaredPiece)).length := by
            cases hp : declaredPiece s <;> rw [hp] at h <;> simpa using h
          intro t ht
          obtain rfl | ht := List.mem_cons.mp ht
          · exact hb
          · exact ih hrest t ht
      | some name =>
          -- a segment in braces was declared as static text
          have hlit : declaredPiece s = .lit s := by
            unfold declaredPiece
            cases hs : RustStd.stripPrefix s [':'] with
            | none => rfl
            | some rest =>
                rw [RustStd.stripPrefix_eq_some.mp hs] at hb
                simp [bracedName, RustStd.stripPrefix, RustStd.startsWith, List.isPrefixOf] at hb
          rw [hb, hlit] at h
          simp only [Option.elim_some, keys_param, keys_lit, List.length_cons] at h
          omega

/-- A pattern behind the leading slash. -/
theorem matchPattern_rooted {ss ts : List (List Char)} (hss : ss ≠ []) (hts : ts ≠ [])
    (hs : ∀ s ∈ ss, '/' ∉ s) (ht : ∀ t ∈ ts, '/' ∉ t) :
    matchPattern (rooted ss) (rooted ts)
      = (matchPieces (fun s => !s.isEmpty) (ss.map pieceOf) ts).map fun bound =>
          bound.map fun b => (b.1, String.ofList b.2) := by
  unfold matchPattern
  rw [patternOf_rooted hss hs, pieces_rooted hts ht]
  rfl

theorem bindings_eq (ks : List String) (params : List (String × String)) :
    bindings ks params
      = (ks.map fun k => (k, ((lookup params k).getD "").toList)).map fun b =>
          (b.1, String.ofList b.2) := by
  unfold bindings
  rw [List.map_map]
  exact List.map_congr_left fun k _ => by simp

/-- The values are such as a parameter stands for. -/
theorem assigned_ok {ks : List String} (h : Assigned params ks) :
    ∀ k ∈ ks, !((lookup params k).getD "").toList.isEmpty := by
  intro k hk
  obtain ⟨value, hvalue, hne, -⟩ := h k hk
  rw [hvalue, Option.getD_some]
  simpa [String.toList_eq_nil_iff] using hne

/-- The kept pieces against the filled ones: they match, with these bindings, if none was dropped. -/
theorem matchPieces_filled {ps : List (List Char)}
    (h : Assigned params (keys (segments.map declaredPiece)))
    (hsegments : segments = ps.filter fun s => !s.isEmpty) :
    ((matchPieces (fun s => !s.isEmpty) (ps.map fun s => pieceOf (braced s))
          (segments.map (filled params))).map fun bound =>
        bound.map fun b => (b.1, String.ofList b.2))
        = some (bindings (keys (segments.map declaredPiece)) params) ↔
      ∀ s ∈ ps, s ≠ [] ∧ bracedName s = none := by
  constructor
  · intro hmatch
    obtain ⟨bound, hbound, hbindings⟩ := Option.map_eq_some_iff.mp hmatch
    have hlen : (ps.filter fun s => !s.isEmpty).length = ps.length := by
      rw [← hsegments]
      simpa using (matchPieces_length hbound).symm
    have hne := List.length_filter_eq_length_iff.mp hlen
    obtain rfl : segments = ps := by rw [hsegments, List.filter_eq_self.mpr hne]
    have hkeys : (keys (segments.map fun s => pieceOf (braced s))).length
        = (keys (segments.map declaredPiece)).length := by
      have hcount := congrArg List.length hbindings
      rw [← matchPieces_keys hbound]
      simpa [bindings] using hcount
    exact fun s hs => ⟨by simpa using hne s hs, keys_braced hkeys s hs⟩
  · intro hclean
    obtain rfl : segments = ps := by
      rw [hsegments, List.filter_eq_self]
      exact fun s hs => by simpa using (hclean s hs).1
    have hpieces : (segments.map fun s => pieceOf (braced s)) = segments.map declaredPiece := by
      refine List.map_congr_left fun s hs => ?_
      rw [pieceOf_braced, (hclean s hs).2]
      rfl
    have hfill := @matchPieces_fill _ _ _ (fun s : List Char => !s.isEmpty) _ _ (assigned_ok h)
    rw [List.map_map] at hfill
    rw [hpieces, bindings_eq]
    exact congrArg _ hfill

/--
The path that `path_for` builds is matched by the route's own pattern, each
parameter bound to its value, exactly when the declared path is clean.
-/
theorem matchPattern_filled {full : String}
    (h : Assigned params (keys ((segmentsOf full.toList).map declaredPiece))) :
    matchPattern (colonToBrace full) (rooted ((segmentsOf full.toList).map (filled params)))
        = some (bindings (keys ((segmentsOf full.toList).map declaredPiece)) params) ↔
      Clean full := by
  have hcolon : colonToBrace full = rooted ((matchitPieces full).map braced) := colonToBrace_eq full
  rw [hcolon]
  unfold Clean
  have hfilter := segmentsOf_eq_filter full
  cases hps : matchitPieces full with
  | nil =>
      rw [hps] at hfilter
      rw [hfilter]
      have hroot : matchPattern (rooted []) (rooted []) = some [] := by decide
      exact ⟨fun _ s hs => (List.not_mem_nil hs).elim, fun _ => hroot⟩
  | cons p rest =>
      have hss : segmentsOf full.toList ≠ [] := by
        rw [hfilter, hps, List.filter_cons_of_pos (by simpa using (head_matchitPieces hps).1)]
        exact List.cons_ne_nil _ _
      have hkept : ∀ s ∈ (p :: rest).map braced, '/' ∉ s := by
        intro s hs
        obtain ⟨t, ht, rfl⟩ := List.mem_map.mp hs
        exact slash_not_mem_braced (slash_not_mem_matchitPieces t (by rw [hps]; exact ht))
      have hfilled := filled_noSlash h fun s hs =>
        slash_not_mem_matchitPieces s (List.mem_of_mem_filter (by rw [← hfilter]; exact hs))
      rw [matchPattern_rooted (by simp) (by simpa using hss) hkept hfilled, List.map_map]
      rw [hps] at hfilter
      exact matchPieces_filled h hfilter

/-! ### Named routes -/

/--
`path_for` gives a path, the route's pattern matches it with these values, and
where no other route of the method matches it `resolve` answers with the route
and them.
-/
def Agrees (matchit : Matchit) (r : MahaloRouter A Ω) (name : String) (idx : Nat)
    (route : Route A Ω) (params : List (String × String)) : Prop :=
  ∃ path, r.pathFor name params = .ok (some path) ∧
    matchPattern route.matchitPath path = some (bindings route.paramKeys params) ∧
    ∀ c, r.compile matchit = .ok c → CellOf r c →
      (∀ j other, r.routes[j]? = some other → j ≠ idx → other.method = route.method →
        matchPattern other.matchitPath path = none) →
      r.matchRoute matchit route.method path = .ok (some (idx, bindings route.paramKeys params)) ∧
      r.resolve matchit route.method path
        = .ok (some (resolvedAs r route (bindings route.paramKeys params)))

/-- A path that one route alone matches resolves to that route. -/
theorem matchRoute_of_only {matchit : Matchit} (hmatchit : Segmentwise matchit)
    {r : MahaloRouter A Ω} {c : CompiledRouters} (hcompile : r.compile matchit = .ok c)
    (hcell : CellOf r c) {idx : Nat} {route : Route A Ω} {path : String} {params : PathParams}
    (hroute : r.routes[idx]? = some route) (hmethod : route.method ∈ routeMethods)
    (hmatch : matchPattern route.matchitPath path = some params)
    (honly : ∀ j other, r.routes[j]? = some other → j ≠ idx → other.method = route.method →
      matchPattern other.matchitPath path = none) :
    r.matchRoute matchit route.method path = .ok (some (idx, params)) := by
  have hserved : served route.method = route.method := by
    unfold served
    rw [if_neg]
    intro hhead
    rw [hhead] at hmethod
    exact absurd hmethod (by decide)
  have hregistrable : served route.method ∈ routeMethods := by rw [hserved]; exact hmethod
  obtain ⟨hrouter, haccepted⟩ := compile_forMethod hcompile hregistrable
  have hmem : (route.matchitPath, idx) ∈ entries route.method r.routes 0 :=
    mem_entries.mpr ⟨route, hroute, hserved.symm, rfl⟩
  obtain ⟨⟨j, found⟩, hfind⟩ := Option.isSome_iff_exists.mp
    (hmatchit.complete haccepted hmem (by rw [hmatch]; rfl))
  obtain ⟨pattern, hpattern, hfound⟩ := hmatchit.sound haccepted hfind
  obtain ⟨other, hother, hothermethod, rfl⟩ := mem_entries.mp hpattern
  have hj : j = idx := by
    by_contra hne
    have hnone := honly j other hother hne (hothermethod.trans hserved)
    rw [hfound] at hnone
    cases hnone
  subst hj
  obtain rfl : other = route := Option.some.inj (hother.symm.trans hroute)
  obtain rfl : found = params := Option.some.inj (hfound.symm.trans hmatch)
  rw [matchRoute_eq hcompile hcell, hrouter, Option.bind_some, hfind]

/--
**Reverse and forward routing agree exactly on clean paths.**  For every chain of
builder calls, every name of the router they build and every assignment of values
that are not empty and have no slash: the name points to a route, and `path_for`
gives a path that this route's own pattern matches, with these values, and that
resolves to the route where no other matches it, if and only if the declared path
has no empty segment behind the first that is not, and no static text in braces.
-/
theorem pathFor_agrees_iff_clean (matchit : Matchit) (hmatchit : Segmentwise matchit)
    (calls : List (BuilderCall A Ω)) (hmethods : ∀ d ∈ declared calls, d.1 ∈ routeMethods)
    (compiled : Option CompiledRouters) {r : MahaloRouter A Ω} (hr : r = { build calls with compiled })
    (name : String) (idx : Nat) (hname : r.nameIndex.lookup name = some idx) :
    ∃ route d, r.routes[idx]? = some route ∧ (declared calls)[idx]? = some d ∧
      ∀ params, Assigned params route.paramKeys →
        (Agrees matchit r name idx route params ↔ Clean d.2) := by
  obtain ⟨hdeclares, hnames⟩ := build_declares calls
  have hroutes : r.routes = (build calls).routes := by rw [hr]
  have hidx : idx < (build calls).routes.length := hnames name idx (by rw [hr] at hname; exact hname)
  have hidx' : idx < (declared calls).length := hdeclares.length_eq ▸ hidx
  have hd : Declares (build calls).routes[idx] (declared calls)[idx] := hdeclares.get hidx hidx'
  have hroute : r.routes[idx]? = some (build calls).routes[idx] := by
    rw [hroutes]
    exact List.getElem?_eq_getElem hidx
  have hmethod : (declared calls)[idx].1 ∈ routeMethods := hmethods _ (List.getElem_mem hidx')
  refine ⟨_, _, hroute, List.getElem?_eq_getElem hidx', ?_⟩
  generalize (build calls).routes[idx] = route at hd hroute ⊢
  generalize (declared calls)[idx] = d at hd hmethod ⊢
  intro params hassigned
  have hkeys : route.paramKeys = keys ((segmentsOf d.2.toList).map declaredPiece) := by
    rw [hd.paramKeys, hd.segments, parseSegments_eq, extractParamKeys_eq]
  rw [hkeys] at hassigned
  have hpath := pathFor_eq hname hroute hd.segments hassigned
  have hpattern := matchPattern_filled hassigned
  rw [← hd.matchitPath, ← hkeys] at hpattern
  rw [← hpattern]
  constructor
  · rintro ⟨path, hp, hmatch, -⟩
    rw [hpath] at hp
    obtain rfl := Option.some.inj (Except.ok.inj hp)
    exact hmatch
  · intro hmatch
    refine ⟨_, hpath, hmatch, fun c hcompile hcell honly => ?_⟩
    have hfound := matchRoute_of_only hmatchit hcompile hcell hroute (hd.method ▸ hmethod) hmatch honly
    exact ⟨hfound, resolve_of_matchRoute hfound hroute⟩

/-! ### Two scopes with resources -/

/-- A scope with nothing but the resources at this path. -/
def resourcesAt (scopePrefix path : String) : List (BuilderCall Unit Unit) :=
  [.scope scopePrefix [] [.resources path {}]]

theorem pathFor_agrees_iff_clean_rooms :
    ∃ route, (build (resourcesAt "/api" "/rooms")).routes[1]? = some route ∧
      Agrees byPriority (build (resourcesAt "/api" "/rooms")) "rooms_show" 1 route [("id", "42")] := by
  have hmethods : ∀ d ∈ declared (resourcesAt "/api" "/rooms"), d.1 ∈ routeMethods := by
    decide +kernel
  have hname : (build (resourcesAt "/api" "/rooms")).nameIndex.lookup "rooms_show" = some 1 := by
    decide +kernel
  obtain ⟨route, d, hroute, hd, hagrees⟩ := pathFor_agrees_iff_clean byPriority
    byPriority_segmentwise (resourcesAt "/api" "/rooms") hmethods none rfl "rooms_show" 1
    hname
  refine ⟨route, hroute, (hagrees _ ?_).mpr ?_⟩
  · have hkeys : ((build (resourcesAt "/api" "/rooms")).routes[1]?).map Route.paramKeys = some ["id"] := by
      decide +kernel
    rw [hroute] at hkeys
    rw [Option.some.inj hkeys]
    intro key hkey
    rw [List.mem_singleton.mp hkey]
    exact ⟨"42", by decide +kernel⟩
  · have hdeclared : (declared (resourcesAt "/api" "/rooms"))[1]? = some (.get, "/api/rooms/:id") := by
      decide +kernel
    rw [hdeclared] at hd
    rw [← Option.some.inj hd]
    decide +kernel

/-- `path_for` leaves out the empty segment under which the route is found. -/
theorem users_show_lost :
    (build (resourcesAt "/users" "/")).pathFor "_show" [("id", "42")] = .ok (some "/users/42") ∧
    (∃ route, (build (resourcesAt "/users" "/")).routes[1]? = some route ∧
      Assigned [("id", "42")] route.paramKeys ∧
      matchPattern route.matchitPath "/users/42" = none ∧
      ¬Agrees byPriority (build (resourcesAt "/users" "/")) "_show" 1 route [("id", "42")]) ∧
    (build (resourcesAt "/users" "/")).matchRoute byPriority .get "/users/42" = .ok none := by
  have hpath : (build (resourcesAt "/users" "/")).pathFor "_show" [("id", "42")]
      = .ok (some "/users/42") := by rfl
  have hnone : ((build (resourcesAt "/users" "/")).routes[1]?).map
      (fun route => (route.paramKeys, matchPattern route.matchitPath "/users/42"))
      = some (["id"], none) := by decide +kernel
  refine ⟨hpath, ?_, by rfl⟩
  cases hroute : (build (resourcesAt "/users" "/")).routes[1]? with
  | none =>
      rw [hroute] at hnone
      cases hnone
  | some route =>
      rw [hroute] at hnone
      obtain ⟨hkeys, hmatch⟩ := Prod.mk.inj (Option.some.inj hnone)
      refine ⟨route, rfl, ?_, hmatch, ?_⟩
      · rw [hkeys]
        intro key hkey
        rw [List.mem_singleton.mp hkey]
        exact ⟨"42", by decide +kernel⟩
      · rintro ⟨path, hp, hbound, -⟩
        rw [hpath] at hp
        obtain rfl := Option.some.inj (Except.ok.inj hp)
        rw [hmatch] at hbound
        cases hbound

end Mahalo.Router
