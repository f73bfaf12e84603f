/-
What the generators make of a new project, as a registry of names.

The files of the web crate are at every moment those of a registry: which names
have a controller or a channel, in the order they came, and which of them have
routes.  `mod.rs` and `router.rs` are then texts of lines, each new line right behind
its marker, so a line is looked up among lines and put in among lines.  A call of a
generator adds to the registry, or is refused and adds nothing.
-/
import Mahalo.Cargo.New
import Mahalo.Lib.TextLines
import Mahalo.Proofs.Cargo.Accumulate

namespace Mahalo.Cargo

open RustStd LetterCase Occurrences TextLines

variable {t : Tables}

/-! ### The registry -/

/-- The text of the file. -/
def fileText (t : Tables) (kind : Kind) (name : Text) : Text :=
  match kind with
  | .controller => controllerFile (normalizeName t name).2
  | .channel => channelFile (normalizeName t name).2 (snakeOf t name)

/-- The names that files have been generated for, and those with routes, in their order. -/
structure Registry where
  generated : List (Kind × Text)
  routed : List Text
  deriving DecidableEq, Repr

namespace Registry

def empty : Registry := { generated := [], routed := [] }

variable (t)

def has (r : Registry) (kind : Kind) (name : Text) : Bool :=
  r.generated.any fun g => decide (g.1 = kind) && decide (snakeOf t g.2 = snakeOf t name)

def add (r : Registry) (kind : Kind) (name : Text) : Registry :=
  { r with generated := r.generated ++ [(kind, name)] }

/-- A resource is left without routes if it is found in the lines of an earlier one. -/
def route (r : Registry) (name : Text) : Registry :=
  if r.routed.any (hides t · name) then r else { r with routed := r.routed ++ [name] }

def refusal (webCrate : Text) (kind : Kind) (name : Text) : Error :=
  .alreadyExists kind.label.toList (webCrate ++ "/".toList ++ filePath kind (snakeOf t name))

/-- The answer to a call for a file, which is not generated twice. -/
def answerFile (webCrate : Text) (r : Registry) (kind : Kind) (name : Text) : Except Error Unit × Registry :=
  if r.has t kind name then (.error (refusal t webCrate kind name), r) else (.ok (), r.add kind name)

/-- The answer to one call. -/
def answer (webCrate : Text) (r : Registry) : Generate → Except Error Unit × Registry
  | .controller name => r.answerFile t webCrate .controller name
  | .channel name => r.answerFile t webCrate .channel name
  | .resource name =>
      if r.has t .controller name then (.error (refusal t webCrate .controller name), r)
      else (.ok (), (r.add .controller name).route t name)

def answerAll (webCrate : Text) : Registry → List Generate → List (Except Error Unit) × Registry
  | r, [] => ([], r)
  | r, call :: rest =>
      let (outcome, r) := r.answer t webCrate call
      let (outcomes, r) := answerAll webCrate r rest
      (outcome :: outcomes, r)

/-- The lines of `mod.rs`, the newest one first. -/
def moduleLines (r : Registry) (kind : Kind) : List Text :=
  (r.generated.reverse.filter fun g => decide (g.1 = kind)).map fun g => moduleLine kind (snakeOf t g.2)

def modText (r : Registry) (kind : Kind) : Text := unlines '\n' (modulesMarker :: r.moduleLines t kind)

/-- `router.rs` before the imports, between them and the routes, and behind these. -/
def routerHead : List Text :=
  ["use std::sync::Arc;".toList, [], "use mahalo::\x7bConn, MahaloRouter, plug_fn\x7d;".toList,
    "use http::StatusCode;".toList]

def routerMiddle : List Text :=
  [[], "pub fn build_router() -> MahaloRouter \x7b".toList, "    MahaloRouter::new()".toList,
    "        .get(\"/health\", plug_fn(health))".toList]

def routerTail : List Text :=
  ["\x7d".toList, [], "async fn health(conn: Conn) -> Conn \x7b".toList,
    "    conn.put_status(StatusCode::OK)".toList, "        .put_resp_body(\"ok\")".toList, "\x7d".toList]

def routerIndent : Text := "        ".toList

def routerText (r : Registry) : Text :=
  unlines '\n' (routerHead ++ importsMarker :: (r.routed.reverse.map (importOf t) ++ (routerMiddle ++
    (routerIndent ++ routesMarker) :: (r.routed.reverse.map (routeOf t) ++ routerTail))))

/-- The files of the web crate; `scaffold` has those that no generator touches. -/
def files (scaffold : Files) (r : Registry) : Files := fun path =>
  if path = routerPath then some (r.routerText t)
  else if path = modPath .controller then some (r.modText t .controller)
  else if path = modPath .channel then some (r.modText t .channel)
  else
    ((r.generated.find? fun g => decide (filePath g.1 (snakeOf t g.2) = path)).map fun g =>
      fileText t g.1 g.2).or (scaffold path)

/-- The names have the forms of plain names. -/
structure Plain (r : Registry) : Prop where
  generated : ∀ g ∈ r.generated, PlainForms (snakeOf t g.2) (normalizeName t g.2).2
  routed : ∀ name ∈ r.routed, PlainForms (snakeOf t name) (normalizeName t name).2

/-- No file is generated twice, and what has routes has a controller. -/
structure Distinct (r : Registry) : Prop where
  files : (r.generated.map fun g => (g.1, snakeOf t g.2)).Nodup
  routed : r.routed.Sublist ((r.generated.filter fun g => decide (g.1 = .controller)).map (·.2))

end Registry

/-! ### Lines of `mod.rs` -/

theorem not_infix_of_contains {p line : Text} (h : contains line p = false) : ¬p <:+: line := by
  rw [← contains_iff_isInfix, h]
  exact Bool.false_ne_true

namespace Registry

variable {r : Registry} {kind : Kind} {name : Text}

theorem mem_moduleLines {line : Text} : line ∈ r.moduleLines t kind ↔
    ∃ other, (kind, other) ∈ r.generated ∧ moduleLine kind (snakeOf t other) = line := by
  unfold moduleLines
  simp only [List.mem_map, List.mem_filter, List.mem_reverse, decide_eq_true_eq]
  constructor
  · rintro ⟨⟨kind, other⟩, ⟨hmem, rfl⟩, hline⟩
    exact ⟨other, hmem, hline⟩
  · rintro ⟨other, hmem, hline⟩
    exact ⟨(kind, other), ⟨hmem, rfl⟩, hline⟩

theorem has_iff : r.has t kind name = true ↔
    ∃ other, (kind, other) ∈ r.generated ∧ snakeOf t other = snakeOf t name := by
  unfold has
  simp only [List.any_eq_true, Bool.and_eq_true, decide_eq_true_eq]
  constructor
  · rintro ⟨⟨kind, other⟩, hmem, rfl, hsnake⟩
    exact ⟨other, hmem, hsnake⟩
  · rintro ⟨other, hmem, hsnake⟩
    exact ⟨(kind, other), hmem, rfl, hsnake⟩

theorem moduleLines_add : (r.add kind name).moduleLines t kind
    = moduleLine kind (snakeOf t name) :: r.moduleLines t kind := by
  simp [moduleLines, add]

theorem moduleLines_add_of_ne {kind' : Kind} (h : kind ≠ kind') :
    (r.add kind name).moduleLines t kind' = r.moduleLines t kind' := by
  simp [moduleLines, add, h]

/-- A module is found in `mod.rs` exactly if it was put there. -/
theorem moduleLine_infix_iff (hr : r.Plain t) (hname : PlainName (snakeOf t name)) :
    moduleLine kind (snakeOf t name) <:+: r.modText t kind ↔ r.has t kind name = true := by
  have hline := moduleLine_marked kind hname
  have hmarker : ¬moduleLine kind (snakeOf t name) <:+: modulesMarker := by
    intro hin
    have hfilter := hin.filter marked
    rw [hline.marks] at hfilter
    exact absurd (contains_iff_isInfix.mpr hfilter) (by decide)
  unfold modText
  rw [infix_unlines hline.ne_nil (hline.not_mem (by decide) (by decide)), has_iff]
  simp only [List.exists_mem_cons_iff, hmarker, false_or, mem_moduleLines]
  constructor
  · rintro ⟨_, ⟨other, hmem, rfl⟩, hin⟩
    have hother := moduleLine_marked kind (hr.generated _ hmem).plainSnake
    exact ⟨other, hmem, (moduleLine_injective (hline.eq_of_isInfix hother (by decide) hin)).symm⟩
  · rintro ⟨other, hmem, hsnake⟩
    exact ⟨_, ⟨other, hmem, rfl⟩, by rw [hsnake]⟩

theorem withModule_modText (hr : r.Plain t) (hname : PlainName (snakeOf t name))
    (hnew : r.has t kind name = false) :
    withModule (r.modText t kind) (moduleLine kind (snakeOf t name)) = (r.add kind name).modText t kind := by
  have hfound : ¬contains (r.modText t kind) (moduleLine kind (snakeOf t name)) = true := by
    rw [contains_iff_isInfix, moduleLine_infix_iff hr hname, hnew]
    exact Bool.false_ne_true
  have hmarker : contains (r.modText t kind) modulesMarker = true := by
    rw [contains_iff_isInfix]
    unfold modText
    rw [infix_unlines (by decide) (by decide)]
    exact ⟨_, List.mem_cons_self .., List.infix_refl _⟩
  rw [withModule, if_neg hfound, if_pos hmarker]
  unfold modText injected
  rw [moduleLines_add]
  exact replaceFirst_unlines [] [] _ _ (by decide) (by decide) (by simp)
    (not_infix_of_contains (by decide))

/-! ### Lines of `router.rs` -/

theorem not_infix_fixed {p : Text} {lines : List Text} (h : (lines.any fun line => contains line p) = false) :
    ∀ line ∈ lines, ¬p <:+: line := by
  rw [List.any_eq_false] at h
  exact fun line hline => not_infix_of_contains (Bool.eq_false_iff.mpr (h line hline))

/-- No fixed line of `router.rs` has a controller's name. -/
theorem needle_not_fixed (snake : Text) (lines : List Text)
    (h : (lines.any fun line => contains line "_controller".toList) = false) :
    ¬∃ line ∈ lines, needle snake <:+: line := by
  rintro ⟨line, hline, hin⟩
  exact not_infix_fixed h line hline ((List.suffix_append snake _).isInfix.trans hin)

/-- A name is found in `router.rs` exactly if a name with routes hides it. -/
theorem needle_infix_iff (hname : PlainName (snakeOf t name)) :
    needle (snakeOf t name) <:+: r.routerText t ↔ r.routed.any (hides t · name) = true := by
  have hne : needle (snakeOf t name) ≠ [] := by simp [needle]
  have hhead := needle_not_fixed (snakeOf t name) routerHead (by decide)
  have himports := needle_not_fixed (snakeOf t name) [importsMarker] (by decide)
  have hmiddle := needle_not_fixed (snakeOf t name) routerMiddle (by decide)
  have hroutes := needle_not_fixed (snakeOf t name) [routerIndent ++ routesMarker] (by decide)
  have htail := needle_not_fixed (snakeOf t name) routerTail (by decide)
  simp only [List.exists_mem_cons_iff, List.not_mem_nil, false_and, exists_false, or_false] at himports hroutes
  unfold routerText
  rw [infix_unlines hne (needle_plain hname '\n' (by decide))]
  simp only [List.mem_append, or_and_right, exists_or, List.exists_mem_cons_iff, hhead, himports, hmiddle, hroutes,
    htail, false_or, or_false, List.mem_map, List.mem_reverse, List.any_eq_true, hides, Bool.or_eq_true,
    contains_iff_isInfix]
  constructor
  · rintro (⟨_, ⟨other, hmem, rfl⟩, hin⟩ | ⟨_, ⟨other, hmem, rfl⟩, hin⟩)
    · exact ⟨other, hmem, Or.inl hin⟩
    · exact ⟨other, hmem, Or.inr hin⟩
  · rintro ⟨other, hmem, hin | hin⟩
    · exact Or.inl ⟨_, ⟨other, hmem, rfl⟩, hin⟩
    · exact Or.inr ⟨_, ⟨other, hmem, rfl⟩, hin⟩

/-- Both lines of a resource that is not found go in behind their markers. -/
theorem withRoute_routerText (hr : r.Plain t) (hname : PlainForms (snakeOf t name) (normalizeName t name).2) :
    withRoute (r.routerText t) (importOf t name) (routeOf t name) (snakeOf t name)
      = (r.route t name).routerText t := by
  have hiff := needle_infix_iff (r := r) hname.plainSnake
  unfold route
  by_cases hany : r.routed.any (hides t · name) = true
  · rw [if_pos hany, withRoute_found (hiff.mpr hany)]
  have himports : importsMarker <:+: r.routerText t := by
    unfold routerText
    rw [infix_unlines (by decide) (by decide)]
    exact ⟨importsMarker, by simp, List.infix_refl _⟩
  have hroutes : routesMarker <:+: r.routerText t := by
    unfold routerText
    rw [infix_unlines (by decide) (by decide)]
    exact ⟨routerIndent ++ routesMarker, by simp, (List.suffix_append _ _).isInfix⟩
  rw [if_neg hany, withRoute_new himports hroutes fun hin => hany (hiff.mp hin)]
  have hfirst : injected (r.routerText t) importsMarker (importOf t name)
      = unlines '\n' (routerHead ++ importsMarker :: importOf t name :: (r.routed.reverse.map (importOf t) ++
        (routerMiddle ++ (routerIndent ++ routesMarker) :: (r.routed.reverse.map (routeOf t) ++ routerTail)))) :=
    replaceFirst_unlines routerHead [] _ _ (by decide) (by decide) (not_infix_fixed (by decide))
      (not_infix_of_contains (by decide))
  have himport : ∀ other, PlainForms (snakeOf t other) (normalizeName t other).2 →
      ¬routesMarker <:+: importOf t other := fun other hother hin =>
    importLine_no_marker hother (List.IsInfix.trans (by decide) hin)
  have hbefore : ∀ line ∈ routerHead ++ importsMarker :: importOf t name :: (r.routed.reverse.map (importOf t) ++
      routerMiddle), ¬routesMarker <:+: line := by
    simp only [List.forall_mem_append, List.forall_mem_cons, List.forall_mem_map, List.mem_reverse]
    exact ⟨not_infix_fixed (by decide), not_infix_of_contains (by decide), himport name hname,
      fun other hother => himport other (hr.routed other hother), not_infix_fixed (by decide)⟩
  have hsecond := replaceFirst_unlines _ routerIndent (routeOf t name)
    (r.routed.reverse.map (routeOf t) ++ routerTail) (by decide) (by decide : '\n' ∉ routesMarker) hbefore
    (not_infix_of_contains (by decide))
  rw [hfirst]
  unfold injected routerText
  simp only [List.append_assoc, List.cons_append] at hsecond ⊢
  refine hsecond.trans ?_
  simp

end Registry

end Mahalo.Cargo
