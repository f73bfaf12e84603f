/-
The lines that are added, and what is found in them.

A name is plain if it has none of four characters: no white space of ASCII that a
line could be split at, and not the two characters lines end with.  These
characters, the marks, are then the same in the lines of all plain names, so no
line overlaps another or a marker, and none stands in another.
-/
import Mahalo.Lib.Occurrences
import Mahalo.Proofs.Cargo.Names

namespace Mahalo.Cargo

open RustStd LetterCase Occurrences

variable {t : Tables}

/-! ### Plain names -/

/-- The characters that the lines are told apart by. -/
def delimiters : Text := [' ', '\n', ';', ')']

def marked (c : Char) : Bool := delimiters.contains c

/-- No name of a module has these characters. -/
def PlainName (name : Text) : Prop := ∀ c ∈ delimiters, c ∉ name

instance (name : Text) : Decidable (PlainName name) := inferInstanceAs (Decidable (∀ c ∈ delimiters, c ∉ name))

/-- The forms of a plain name. -/
structure PlainForms (snake pascal : Text) : Prop where
  plainSnake : PlainName snake
  plainPascal : PlainName pascal
  noUnderscore : '_' ∉ pascal

theorem delimiter_ascii : ∀ c ∈ delimiters, c.isAlpha = false ∧ c.toNat < 128 ∧ c ≠ '_' := by
  simp [delimiters]

theorem plainForms (h : Documented t) {name : Text} (hname : PlainName name) :
    PlainForms (normalizeName t name).1 (normalizeName t name).2 := by
  cases hsnake : takesSnake t name with
  | true =>
      have hlower : PlainName (t.toLowercase name) := fun c hc =>
        h.not_mem_toLowercase (delimiter_ascii c hc).1 (delimiter_ascii c hc).2.1 (hname c hc)
      rw [normalizeName_snake hsnake]
      refine ⟨hlower, fun c hc => ?_, underscore_not_mem_pascalOf h _⟩
      exact not_mem_pascalOf h (delimiter_ascii c hc).1 (delimiter_ascii c hc).2.1 fun w hw hmem =>
        hlower c hc (mem_of_mem_split hw c hmem)
  | false =>
      rw [normalizeName_pascal hsnake]
      refine ⟨fun c hc hmem => ?_, hname, fun hmem => ?_⟩
      · obtain rfl | ⟨y, hy, rfl⟩ := mem_underscored hmem
        · exact (delimiter_ascii _ hc).2.2 rfl
        · by_cases hupper : y.isUpper = true
          · have halpha := (delimiter_ascii _ hc).1
            rw [Char.isAlpha_toLower_eq_isAlpha, Char.isAlpha, hupper, Bool.true_or] at halpha
            cases halpha
          · rw [Char.toLower_eq_of_not_isUpper hupper] at hc
            exact hname y hc hy
      · unfold takesSnake at hsnake
        rw [List.contains_eq_mem, decide_eq_true hmem, Bool.true_or] at hsnake
        cases hsnake

theorem PlainName.filter_marked {s : Text} (h : PlainName s) : s.filter marked = [] := by
  rw [List.filter_eq_nil_iff]
  intro c hc hmarked
  exact h c (by simpa [marked] using hmarked) hc

/-! ### Marks -/

/-- A line with these marks, the first behind `front` and the last at its end. -/
structure Marked (line front marks : Text) : Prop where
  first : ∃ rest, line = front ++ ' ' :: rest
  last : ∃ rest c, line = rest ++ [c] ∧ marked c = true
  marks : line.filter marked = marks

theorem Marked.ne_nil {line front marks : Text} (h : Marked line front marks) : line ≠ [] := by
  obtain ⟨rest, c, rfl, -⟩ := h.last
  simp

theorem Marked.not_mem {line front marks : Text} (h : Marked line front marks) {c : Char} (hc : marked c = true)
    (hmarks : c ∉ marks) : c ∉ line := by
  intro hmem
  exact hmarks (h.marks ▸ List.mem_filter.mpr ⟨hmem, hc⟩)

theorem Marked.apart {p s fp fs ps ss : Text} (hp : Marked p fp ps) (hs : Marked s fs ss) (h : Apart ps ss) :
    Apart p s := by
  obtain ⟨rest, x, rfl, hx⟩ := hp.last
  obtain ⟨rest', y, rfl, hy⟩ := hs.last
  refine apart_of_filter hx hy ?_
  rw [hp.marks, hs.marks]
  exact h

theorem Marked.not_isInfix {p s fp fs ps ss : Text} (hp : Marked p fp ps) (hs : Marked s fs ss) (h : ¬ps <:+: ss) :
    ¬p <:+: s := by
  intro hwithin
  have hfilter := hwithin.filter marked
  rw [hp.marks, hs.marks] at hfilter
  exact h hfilter

/-- Lines of one kind are the same if one stands in the other. -/
theorem Marked.eq_of_isInfix {p s front marks : Text} (hp : Marked p front marks) (hs : Marked s front marks)
    (hfront : ' ' ∉ front) (h : p <:+: s) : p = s := by
  obtain ⟨p', hpfront⟩ := hp.first
  obtain ⟨s', hsfront⟩ := hs.first
  obtain ⟨rest, y, hlast, hy⟩ := hs.last
  exact Occurrences.eq_of_isInfix hpfront hsfront hlast (by decide) hy hfront (hp.marks.trans hs.marks.symm) h

theorem Marked.count {p s front marks : Text} (hp : Marked p front marks) (hs : Marked s front marks)
    (hfront : ' ' ∉ front) : count p s = if p = s then 1 else 0 := by
  by_cases heq : p = s
  · rw [if_pos heq, heq, count_self hs.ne_nil]
  · rw [if_neg heq, count_eq_zero hp.ne_nil]
    exact fun hwithin => heq (hp.eq_of_isInfix hs hfront hwithin)

theorem Marked.count_zero {p s fp fs ps ss : Text} (hp : Marked p fp ps) (hs : Marked s fs ss) (h : ¬ps <:+: ss) :
    Occurrences.count p s = 0 := (count_eq_zero hp.ne_nil).mpr (hp.not_isInfix hs h)

/-! ### The three lines -/

/-- The two kinds of files that are generated. -/
inductive Kind where
  | controller
  | channel
  deriving DecidableEq, Repr

namespace Kind

def dir : Kind → String
  | controller => "controllers"
  | channel => "channels"

def word : Kind → String
  | controller => "controller"
  | channel => "channel"

def label : Kind → String
  | controller => "Controller"
  | channel => "Channel"

end Kind

/-- The line for it in `mod.rs`. -/
def moduleLine (kind : Kind) (snake : Text) : Text :=
  "pub mod ".toList ++ (snake ++ "_".toList ++ kind.word.toList) ++ ";".toList

/-- That of a controller. -/
abbrev modLine (snake : Text) : Text := moduleLine .controller snake

def importMarks : Text := " ;".toList
def routeMarks : Text := "             )); )".toList
def modMarks : Text := "  ;".toList

variable {snake pascal snake' pascal' : Text}

theorem importLine_marked (h : PlainForms snake pascal) :
    Marked (importLine snake pascal) "use".toList importMarks := by
  refine ⟨⟨"crate::controllers::".toList ++ snake ++ "_controller::".toList ++ pascal ++ "Controller;".toList,
    rfl⟩, ⟨"use crate::controllers::".toList ++ snake ++ "_controller::".toList ++ pascal ++ "Controller".toList,
    ';', ?_, rfl⟩, ?_⟩
  · unfold importLine
    rw [show "Controller;".toList = "Controller".toList ++ [';'] from rfl, ← List.append_assoc]
  · unfold importLine
    simp only [List.filter_append, h.plainSnake.filter_marked, h.plainPascal.filter_marked]
    rfl

theorem PlainForms.plural (h : PlainForms snake pascal) : PlainName (pluralize snake) := by
  intro c hc hmem
  obtain hmem | hmem := List.mem_append.mp hmem
  · exact h.plainSnake c hc hmem
  · obtain rfl := List.mem_singleton.mp hmem
    exact absurd hc (by decide)

theorem routeLine_marked (h : PlainForms snake pascal) :
    Marked (routeLine (pluralize snake) pascal) [] routeMarks := by
  refine ⟨⟨"       .scope(\"/".toList ++ pluralize snake ++ "\", &[], |s| \x7b s.resources(\"/".toList ++
    pluralize snake ++ "\", std::sync::Arc::new(".toList ++ pascal ++ "Controller)); \x7d)".toList, rfl⟩,
    ⟨"        .scope(\"/".toList ++ pluralize snake ++ "\", &[], |s| \x7b s.resources(\"/".toList ++
    pluralize snake ++ "\", std::sync::Arc::new(".toList ++ pascal ++ "Controller)); \x7d".toList,
    ')', ?_, rfl⟩, ?_⟩
  · unfold routeLine
    rw [show "Controller)); \x7d)".toList = "Controller)); \x7d".toList ++ [')'] from rfl, ← List.append_assoc]
  · unfold routeLine
    simp only [List.filter_append, h.plural.filter_marked, h.plainPascal.filter_marked]
    rfl

theorem moduleLine_marked (kind : Kind) {snake : Text} (h : PlainName snake) :
    Marked (moduleLine kind snake) "pub".toList modMarks := by
  refine ⟨⟨"mod ".toList ++ (snake ++ "_".toList ++ kind.word.toList) ++ ";".toList, rfl⟩,
    ⟨"pub mod ".toList ++ (snake ++ "_".toList ++ kind.word.toList), ';', rfl, rfl⟩, ?_⟩
  unfold moduleLine
  simp only [List.filter_append, h.filter_marked]
  cases kind <;> rfl

theorem importLine_injective (h : PlainForms snake pascal) (h' : PlainForms snake' pascal')
    (heq : importLine snake pascal = importLine snake' pascal') : snake = snake' := by
  unfold importLine at heq
  have hmiddle := List.append_cancel_right heq
  simp only [List.append_assoc, List.append_cancel_left_eq] at hmiddle
  have hnot : ∀ {p : Text}, '_' ∉ p → '_' ∉ "controller::".toList ++ p := fun hp => by simp [hp]
  exact (append_cons_unique_last (hnot h.noUnderscore) (hnot h'.noUnderscore) hmiddle).1

/-- The first space behind the indentation stands right behind the path. -/
theorem routeLine_path (snake pascal : Text) : ∃ rest,
    routeLine (pluralize snake) pascal
      = "        .scope(\"/".toList ++ ((snake ++ "s\",".toList) ++ ' ' :: rest) := by
  refine ⟨"&[], |s| \x7b s.resources(\"/".toList ++ pluralize snake ++ "\", std::sync::Arc::new(".toList ++
    pascal ++ "Controller)); \x7d)".toList, ?_⟩
  unfold routeLine pluralize
  simp only [List.append_assoc]
  rfl

theorem routeLine_injective (h : PlainForms snake pascal) (h' : PlainForms snake' pascal')
    (heq : routeLine (pluralize snake) pascal = routeLine (pluralize snake') pascal') : snake = snake' := by
  have hnot : ∀ {s : Text}, PlainName s → ' ' ∉ s ++ "s\",".toList := by
    intro s hs
    rw [List.mem_append, not_or]
    exact ⟨hs ' ' (by decide), by decide⟩
  obtain ⟨rest, hrest⟩ := routeLine_path snake pascal
  obtain ⟨rest', hrest'⟩ := routeLine_path snake' pascal'
  rw [hrest, hrest', List.append_cancel_left_eq] at heq
  exact List.append_cancel_right (append_cons_unique (hnot h.plainSnake) (hnot h'.plainSnake) heq).1

theorem moduleLine_injective {kind : Kind} {snake snake' : Text}
    (h : moduleLine kind snake = moduleLine kind snake') : snake = snake' := by
  unfold moduleLine at h
  simpa only [List.append_assoc, List.append_cancel_left_eq, List.append_cancel_right_eq] using h

/-! ### Markers -/

/-- What all markers begin with. -/
def markerFront : Text := "// mahalo:".toList

def NoMarker (piece : Text) : Prop := Apart markerFront piece ∧ ¬markerFront <:+: piece

theorem noMarker_fixed {piece : Text} (hcontains : contains piece markerFront = false)
    (htails : (piece.tails.all fun u => u.isEmpty || decide (markerFront.length ≤ u.length) ||
      !u.isPrefixOf markerFront) = true) : NoMarker piece := by
  refine ⟨apart_of_tails htails, ?_⟩
  rw [← contains_iff_isInfix, hcontains]
  exact Bool.false_ne_true

theorem noMarker_word {word : Text} {c : Char} (hspace : ' ' ∉ word ++ [c]) (hc : c ∉ markerFront) :
    NoMarker (word ++ [c]) :=
  ⟨apart_of_last hc, fun hwithin => hspace (hwithin.subset (by decide))⟩

theorem noMarker_flatten {pieces : List Text} (h : ∀ piece ∈ pieces, NoMarker piece) :
    ¬markerFront <:+: pieces.flatten := not_infix_flatten (by decide) h

theorem importLine_no_marker (h : PlainForms snake pascal) : ¬markerFront <:+: importLine snake pascal := by
  have hpieces : importLine snake pascal = ["use crate::controllers::".toList,
      (snake ++ "_controller::".toList ++ pascal ++ "Controller".toList) ++ [';']].flatten := by
    unfold importLine
    simp only [List.flatten_cons, List.flatten_nil, List.append_nil, List.append_assoc]
    rfl
  rw [hpieces]
  refine noMarker_flatten ?_
  simp only [List.forall_mem_cons]
  refine ⟨noMarker_fixed (by decide) (by decide), noMarker_word ?_ (by decide), List.forall_mem_nil _⟩
  simp only [List.mem_append, not_or]
  exact ⟨⟨⟨⟨h.plainSnake ' ' (by decide), by decide⟩, h.plainPascal ' ' (by decide)⟩, by decide⟩, by decide⟩

theorem routeLine_no_marker (h : PlainForms snake pascal) :
    ¬markerFront <:+: routeLine (pluralize snake) pascal := by
  have hpieces : routeLine (pluralize snake) pascal = ["        .scope(\"".toList,
      ("/".toList ++ pluralize snake ++ "\"".toList) ++ [','], " &[], |s| \x7b s.resources(\"".toList,
      ("/".toList ++ pluralize snake ++ "\"".toList) ++ [','], " std::sync::Arc::new(".toList,
      (pascal ++ "Controller))".toList) ++ [';'], " \x7d)".toList].flatten := by
    unfold routeLine
    simp only [List.flatten_cons, List.flatten_nil, List.append_nil, List.append_assoc]
    rfl
  have hpath : NoMarker (("/".toList ++ pluralize snake ++ "\"".toList) ++ [',']) := by
    refine noMarker_word ?_ (by decide)
    simp only [List.mem_append, not_or]
    exact ⟨⟨⟨by decide, h.plural ' ' (by decide)⟩, by decide⟩, by decide⟩
  have hcontroller : NoMarker ((pascal ++ "Controller))".toList) ++ [';']) := by
    refine noMarker_word ?_ (by decide)
    simp only [List.mem_append, not_or]
    exact ⟨⟨h.plainPascal ' ' (by decide), by decide⟩, by decide⟩
  rw [hpieces]
  refine noMarker_flatten ?_
  simp only [List.forall_mem_cons]
  exact ⟨noMarker_fixed (by decide) (by decide), hpath, noMarker_fixed (by decide) (by decide), hpath,
    noMarker_fixed (by decide) (by decide), hcontroller, noMarker_fixed (by decide) (by decide),
    List.forall_mem_nil _⟩

theorem moduleLine_no_marker (kind : Kind) (h : PlainName snake) : ¬markerFront <:+: moduleLine kind snake := by
  have hpieces : moduleLine kind snake
      = ["pub mod ".toList, (snake ++ "_".toList ++ kind.word.toList) ++ [';']].flatten := by
    unfold moduleLine
    simp only [List.flatten_cons, List.flatten_nil, List.append_nil, List.append_assoc]
    rfl
  have hword : ' ' ∉ kind.word.toList := by cases kind <;> decide
  rw [hpieces]
  refine noMarker_flatten ?_
  simp only [List.forall_mem_cons]
  refine ⟨noMarker_fixed (by decide) (by decide), noMarker_word ?_ (by decide), List.forall_mem_nil _⟩
  simp only [List.mem_append, not_or]
  exact ⟨⟨⟨h ' ' (by decide), by decide⟩, hword⟩, by decide⟩

/-! ### Lines of `router.rs` -/

/-- A line that is added to `router.rs`. -/
inductive RouterLine : Text → Prop where
  | imported {snake pascal : Text} (h : PlainForms snake pascal) : RouterLine (importLine snake pascal)
  | routed {snake pascal : Text} (h : PlainForms snake pascal) : RouterLine (routeLine (pluralize snake) pascal)

variable {p line marker : Text}

theorem RouterLine.marked (hp : RouterLine p) :
    ∃ front marks, Marked p front marks ∧ (marks = importMarks ∨ marks = routeMarks) := by
  cases hp with
  | imported h => exact ⟨_, _, importLine_marked h, Or.inl rfl⟩
  | routed h => exact ⟨_, _, routeLine_marked h, Or.inr rfl⟩

theorem RouterLine.ne_nil (hp : RouterLine p) : p ≠ [] := by
  obtain ⟨front, marks, hmarked, -⟩ := hp.marked
  exact hmarked.ne_nil

theorem RouterLine.apart (hp : RouterLine p) (hl : RouterLine line) : Apart p line := by
  obtain ⟨_, _, hp, rfl | rfl⟩ := hp.marked <;> obtain ⟨_, _, hl, rfl | rfl⟩ := hl.marked <;>
    exact hp.apart hl (apart_of_tails (by decide))

/-- Where a marker stands, and what a line begins with, nothing of a line begins. -/
theorem RouterLine.clear (hp : RouterLine p) (hl : RouterLine line)
    (hmarker : marker = importsMarker ∨ marker = routesMarker) : Clear '\n' marker line p where
  ne_nil := hp.ne_nil
  separator := by
    obtain ⟨_, _, hp, rfl | rfl⟩ := hp.marked <;> exact hp.not_mem (by decide) (by decide)
  marker_apart := by
    cases hp with
    | imported h =>
        unfold importLine
        simp only [List.append_assoc]
        obtain rfl | rfl := hmarker <;> exact apart_of_front _ (by decide)
    | routed h =>
        unfold routeLine
        simp only [List.append_assoc]
        obtain rfl | rfl := hmarker <;> exact apart_of_front _ (by decide)
  no_marker := by
    have hfront : markerFront <:+: marker := by
      obtain rfl | rfl := hmarker <;> decide
    intro hwithin
    cases hp with
    | imported h => exact importLine_no_marker h (hfront.trans hwithin)
    | routed h => exact routeLine_no_marker h (hfront.trans hwithin)
  line_apart := hp.apart hl

/-- An import line and a route line never stand in each other. -/
theorem count_importLine (h : PlainForms snake pascal) (h' : PlainForms snake' pascal') :
    count (importLine snake pascal) (importLine snake' pascal') +
      count (importLine snake pascal) (routeLine (pluralize snake') pascal')
      = if importLine snake pascal = importLine snake' pascal' then 1 else 0 := by
  rw [(importLine_marked h).count (importLine_marked h') (by decide),
    (importLine_marked h).count_zero (routeLine_marked h') (by decide), Nat.add_zero]

theorem count_routeLine (h : PlainForms snake pascal) (h' : PlainForms snake' pascal') :
    count (routeLine (pluralize snake) pascal) (importLine snake' pascal') +
      count (routeLine (pluralize snake) pascal) (routeLine (pluralize snake') pascal')
      = if routeLine (pluralize snake) pascal = routeLine (pluralize snake') pascal' then 1 else 0 := by
  rw [(routeLine_marked h).count_zero (importLine_marked h') (by decide),
    (routeLine_marked h).count (routeLine_marked h') (by decide), Nat.zero_add]

/-! ### What a name is looked up by -/

def needle (snake : Text) : Text := snake ++ "_controller".toList

theorem needle_plain (h : PlainName snake) : PlainName (needle snake) := by
  have hend : PlainName "_controller".toList := by simp [PlainName, delimiters]
  intro c hc hmem
  obtain hmem | hmem := List.mem_append.mp hmem
  · exact h c hc hmem
  · exact hend c hc hmem

theorem needle_in_importLine : needle snake <:+: importLine snake pascal :=
  ⟨"use crate::controllers::".toList, "::".toList ++ pascal ++ "Controller;".toList, by
    unfold needle importLine
    simp only [List.append_assoc]
    rfl⟩

theorem RouterLine.apart_needle (hl : RouterLine line) (h : PlainName snake) : Apart (needle snake) line := by
  obtain ⟨_, _, hmarked, -⟩ := hl.marked
  obtain ⟨rest, c, rfl, hc⟩ := hmarked.last
  exact apart_of_last (needle_plain h c (by simpa [Cargo.marked] using hc))

end Mahalo.Cargo
