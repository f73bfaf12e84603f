/-
Names in snake case and in Pascal case.

`normalize_name` reads a name as snake case if it has an underscore or consists of
lower-case letters, and as Pascal case otherwise.  Each reading is the inverse of
the other on words that begin with a letter of ASCII.  What the test for snake case
misses is the single word with a digit, `room2`, and what Pascal case takes in is
`roomMessage`: neither is given a capital.  `SnakeSpelling` and `PascalSpelling`
say for which names the two forms are canonical.
-/
import Mahalo.Cargo.Generate

namespace Mahalo.Cargo

open RustStd LetterCase

variable {t : Tables}

/-! ### The two readings -/

/-- The test for snake case. -/
def takesSnake (t : Tables) (name : Text) : Bool :=
  name.contains '_' || name.all fun c => t.isLowercase c || c == '_'

def capitalize (t : Tables) : Text → Text
  | c :: chars => t.toUppercase c ++ chars
  | [] => []

theorem capitalize_cons (c : Char) (chars : Text) : capitalize t (c :: chars) = t.toUppercase c ++ chars := rfl

def pascalOf (t : Tables) (snake : Text) : Text := (split snake '_').flatMap (capitalize t)

/-- The loop of the Pascal-case reading; no underscore goes before the first character. -/
def underscored (t : Tables) : Bool → Text → Text
  | _, [] => []
  | first, c :: rest =>
      (if t.isUppercase c && !first then ['_'] else []) ++ c.toLower :: underscored t false rest

theorem normalizeName_snake {name : Text} (h : takesSnake t name = true) :
    normalizeName t name = (t.toLowercase name, pascalOf t (t.toLowercase name)) := by
  unfold takesSnake at h
  unfold normalizeName
  rw [if_pos h]
  rfl

private theorem zipIdx_underscored (name : Text) : ∀ i : Nat,
    ((name.zipIdx i).flatMap fun (c, i) =>
      (if t.isUppercase c && decide (0 < i) then ['_'] else []) ++ [c.toLower])
      = underscored t (i == 0) name := by
  induction name with
  | nil => intro i; rfl
  | cons c rest ih =>
      intro i
      rw [List.zipIdx_cons, List.flatMap_cons, ih, underscored]
      cases i <;> simp

theorem normalizeName_pascal {name : Text} (h : takesSnake t name = false) :
    normalizeName t name = (underscored t true name, name) := by
  have hsnake : (name.zipIdx.flatMap fun (c, i) =>
      (if t.isUppercase c && decide (0 < i) then ['_'] else []) ++ [c.toLower])
      = underscored t true name := zipIdx_underscored name 0
  unfold takesSnake at h
  unfold normalizeName
  rw [h, if_neg Bool.false_ne_true, hsnake]

/-! ### Words -/

def StartsWithLetter (t : Tables) (word : Text) : Prop :=
  ∃ c rest, word = c :: rest ∧ t.isAlphabetic c = true

def StartsWithAscii (word : Text) : Prop := ∃ c rest, word = c :: rest ∧ c.toNat < 128

theorem pascalOf_eq {s w : Text} {ws : List Text} (h : split s '_' = w :: ws) :
    pascalOf t s = capitalize t w ++ ws.flatMap (capitalize t) := by
  unfold pascalOf
  rw [h, List.flatMap_cons]

theorem ne_underscore (h : Documented t) {c : Char} (hc : t.isAlphabetic c = true) : c ≠ '_' := by
  rintro rfl
  rw [h.isAlphabetic_underscore] at hc
  cases hc

/-- Capitals bring in no character of ASCII that is no letter. -/
theorem not_mem_pascalOf (h : Documented t) {snake : Text} {d : Char} (hd : d.isAlpha = false)
    (hascii : d.toNat < 128) (hwords : ∀ w ∈ split snake '_', d ∉ w) : d ∉ pascalOf t snake := by
  unfold pascalOf
  intro hmem
  obtain ⟨w, hw, hmem⟩ := List.mem_flatMap.mp hmem
  have hnot := hwords w hw
  cases w with
  | nil => cases hmem
  | cons c w =>
      simp only [List.mem_cons, not_or] at hnot
      obtain hmem | hmem := List.mem_append.mp hmem
      · exact h.not_mem_toUppercase hd hascii hnot.1 hmem
      · exact hnot.2 hmem

theorem underscore_not_mem_pascalOf (h : Documented t) (snake : Text) : '_' ∉ pascalOf t snake :=
  not_mem_pascalOf h (by decide) (by decide) not_mem_of_mem_split

/-! ### From words to capitals and back -/

/-- A text without capitals is left as it is. -/
theorem underscored_append (h : Documented t) {s : Text} (hs : ∀ c ∈ s, t.isUppercase c = false)
    (rest : Text) : underscored t false (s ++ rest) = s ++ underscored t false rest := by
  induction s with
  | nil => rfl
  | cons c s ih =>
      obtain ⟨hc, hs⟩ := List.forall_mem_cons.mp hs
      rw [List.cons_append, underscored, ih hs, hc, h.toLower_eq hc]
      rfl

/-- The lower case of ASCII makes a letter without case of a capital only if it is one of ASCII. -/
theorem isLower_of_toLower_eq {u c : Char} (hu : t.isUppercase u = true)
    (hc : t.isUppercase c = false) (heq : u.toLower = c) : c.isLower = true := by
  by_cases hupper : u.isUpper = true
  · rw [← heq]
    exact isLower_toLower hupper
  · rw [Char.toLower_eq_of_not_isUpper hupper] at heq
    rw [heq, hc] at hu
    cases hu

/-- A word of lower-case letters comes back from its capital exactly when its first letter is of ASCII. -/
theorem underscored_word (h : Documented t) {first : Bool} {c : Char} {word rest rest' : Text}
    (hletter : t.isAlphabetic c = true) (hlower : ∀ x ∈ c :: word, t.isUppercase x = false)
    (hfirst : first = true → ∃ u us, t.toUppercase c = u :: us ∧ t.isUppercase u = true) :
    underscored t first (capitalize t (c :: word) ++ rest)
        = (if first then [] else ['_']) ++ (c :: word) ++ rest' ↔
      c.toNat < 128 ∧ underscored t false rest = rest' := by
  obtain ⟨hc, hword⟩ := List.forall_mem_cons.mp hlower
  have hback : c.isLower = true → underscored t first (capitalize t (c :: word) ++ rest)
      = (if first then [] else ['_']) ++ (c :: word) ++ underscored t false rest := by
    intro hcl
    have hcap : capitalize t (c :: word) = c.toUpper :: word := by
      rw [capitalize_cons, h.toUppercase_ascii c (ascii_of_isLower hcl)]
      rfl
    rw [hcap, List.cons_append, underscored, h.isUppercase_of_isUpper (isUpper_toUpper hcl),
      underscored_append h hword, toLower_toUpper hcl]
    cases first <;> rfl
  constructor
  · intro heq
    have hcl : c.isLower = true := by
      obtain ⟨u, us, hu⟩ := List.exists_cons_of_ne_nil (h.toUppercase_ne_nil c)
      have hcap : capitalize t (c :: word) = u :: (us ++ word) := by
        rw [capitalize_cons, hu]
        rfl
      rw [hcap, List.cons_append, underscored] at heq
      by_cases hupper : t.isUppercase u = true
      · refine isLower_of_toLower_eq hupper hc ?_
        rw [hupper] at heq
        cases first <;> simp at heq <;> exact heq.1
      · -- what is no capital is left alone, so it would have to be an underscore
        have hlow : t.isUppercase u = false := by simpa using hupper
        cases first with
        | true =>
            obtain ⟨u', us', hu', hcapital⟩ := hfirst rfl
            rw [hu] at hu'
            rw [(List.cons.inj hu').1] at hlow
            rw [hlow] at hcapital
            cases hcapital
        | false =>
            rw [hlow, h.toLower_eq hlow] at heq
            have hmem : u ∈ t.toUppercase c := by rw [hu]; exact List.mem_cons_self ..
            have hunder : u = '_' := (List.cons.inj heq).1
            rw [hunder] at hmem
            exact absurd hmem (h.not_mem_toUppercase (by decide) (by decide) (Ne.symm (ne_underscore h hletter)))
    rw [hback hcl] at heq
    exact ⟨ascii_of_isLower hcl, List.append_cancel_left heq⟩
  · rintro ⟨hascii, rfl⟩
    refine hback ?_
    rw [h.isAlphabetic_ascii c hascii, Char.isAlpha] at hletter
    rw [h.isUppercase_ascii c hascii] at hc
    rw [hc] at hletter
    simpa using hletter

theorem underscored_words (h : Documented t) {ws : List Text} (hletter : ∀ w ∈ ws, StartsWithLetter t w)
    (hlower : ∀ w ∈ ws, ∀ c ∈ w, t.isUppercase c = false) :
    underscored t false (ws.flatMap (capitalize t)) = ws.flatMap ('_' :: ·) ↔
      ∀ w ∈ ws, StartsWithAscii w := by
  induction ws with
  | nil => simp [underscored]
  | cons w ws ih =>
      obtain ⟨⟨c, word, rfl, hc⟩, hletters⟩ := List.forall_mem_cons.mp hletter
      obtain ⟨hw, hws⟩ := List.forall_mem_cons.mp hlower
      have hword := @underscored_word t h false c word (ws.flatMap (capitalize t)) (ws.flatMap ('_' :: ·))
        hc hw fun hfirst => absurd hfirst Bool.false_ne_true
      rw [List.flatMap_cons, List.flatMap_cons, List.forall_mem_cons, ← ih hletters hws]
      refine hword.trans (and_congr_left fun _ => ?_)
      simp [StartsWithAscii]

theorem toLower_ne_underscore {c : Char} (hc : c.isUpper = true) : c.toLower ≠ '_' := by
  intro heq
  have hlower := isLower_toLower hc
  rw [heq] at hlower
  exact absurd hlower (by decide)

/-- Read as Pascal case and taken apart again, a text is what it was. -/
theorem split_underscored (h : Documented t) {s : Text} (hs : '_' ∉ s)
    (hupper : ∀ c ∈ s, t.isUppercase c = true → c.isUpper = true) :
    ∃ w ws, split (underscored t false s) '_' = w :: ws ∧ w ++ ws.flatMap (capitalize t) = s := by
  induction s with
  | nil => exact ⟨[], [], rfl, rfl⟩
  | cons c s ih =>
      simp only [List.mem_cons, not_or] at hs
      obtain ⟨hc, hupper⟩ := List.forall_mem_cons.mp hupper
      obtain ⟨w, ws, hsplit, hback⟩ := ih hs.2 hupper
      rw [underscored]
      cases hcase : t.isUppercase c with
      | true =>
          have hcapital := hc hcase
          refine ⟨[], (c.toLower :: w) :: ws, ?_, ?_⟩
          · show split ('_' :: c.toLower :: underscored t false s) '_' = _
            rw [split, if_pos rfl, split_cons_ne (toLower_ne_underscore hcapital) hsplit]
          · rw [List.nil_append, List.flatMap_cons, capitalize, h.toUppercase_toLower hcapital,
              List.append_assoc, hback]
            rfl
      | false =>
          refine ⟨c :: w, ws, ?_, by rw [List.cons_append, hback]⟩
          show split (c.toLower :: underscored t false s) '_' = _
          rw [h.toLower_eq hcase]
          exact split_cons_ne (Ne.symm hs.1) hsplit

theorem pascalOf_underscored (h : Documented t) {c : Char} {rest : Text} (hc : c.isUpper = true)
    (hs : '_' ∉ rest) (hupper : ∀ x ∈ rest, t.isUppercase x = true → x.isUpper = true) :
    pascalOf t (c.toLower :: underscored t false rest) = c :: rest := by
  obtain ⟨w, ws, hsplit, hback⟩ := split_underscored h hs hupper
  rw [pascalOf_eq (split_cons_ne (toLower_ne_underscore hc) hsplit), capitalize, h.toUppercase_toLower hc,
    List.append_assoc, hback]
  rfl

/-! ### Canonical forms -/

/--
A letter in front, and either no underscore, as in camel case and Pascal case, or no
capital, as in snake case, which is its own lower case.
-/
structure Identifier (t : Tables) (name : Text) : Prop where
  letter : StartsWithLetter t name
  style : '_' ∉ name ∨ (t.toLowercase name = name ∧ ∀ c ∈ name, t.isUppercase c = false)

/-- The two forms have the case they are named for, and each leads back to the snake-case form. -/
structure Canonical (t : Tables) (name : Text) : Prop where
  capital : ∃ c rest, (normalizeName t name).2 = c :: rest ∧ t.isUppercase c = true
  lower : ∀ c ∈ (normalizeName t name).1, t.isUppercase c = false
  snake : normalizeName t (normalizeName t name).1 = normalizeName t name
  pascal : (∀ word ∈ split (normalizeName t name).1 '_', StartsWithLetter t word) →
    (normalizeName t (normalizeName t name).2).1 = (normalizeName t name).1

/-- The first letter has a capital, and if every word begins with a letter, it is one of ASCII. -/
structure SnakeSpelling (t : Tables) (name : Text) : Prop where
  capital : ∃ c rest u us, name = c :: rest ∧ t.toUppercase c = u :: us ∧ t.isUppercase u = true
  words : (∀ word ∈ split name '_', StartsWithLetter t word) → ∀ word ∈ split name '_', StartsWithAscii word

/--
A capital of ASCII in front; behind it no capital or title-case letter that is not
of ASCII, and either another capital or nothing but lower-case letters.
-/
def PascalSpelling (t : Tables) (name : Text) : Prop :=
  ∃ c rest, name = c :: rest ∧ c.isUpper = true ∧
    (∀ x ∈ rest, x.isUpper = true ∨ (t.isUppercase x = false ∧ t.toLowercase [x] = [x])) ∧
    ((∀ x ∈ rest, t.isLowercase x = true) ∨ ∃ x ∈ rest, t.isUppercase x = true)

def CanonicalSpelling (t : Tables) (name : Text) : Prop :=
  if takesSnake t name = true then SnakeSpelling t name else PascalSpelling t name

/-- What is read as snake case is its own lower case, and has no capital. -/
theorem Identifier.lower (h : Documented t) {name : Text} (hname : Identifier t name)
    (hsnake : takesSnake t name = true) :
    t.toLowercase name = name ∧ ∀ c ∈ name, t.isUppercase c = false := by
  obtain hunder | hlower := hname.style
  · have hall : ∀ c ∈ name, t.isLowercase c = true := by
      unfold takesSnake at hsnake
      rw [List.contains_eq_mem, decide_eq_false hunder, Bool.false_or, List.all_eq_true] at hsnake
      intro c hc
      obtain hl | heq := Bool.or_eq_true_iff.mp (hsnake c hc)
      · exact hl
      · rw [beq_iff_eq] at heq
        exact absurd (heq ▸ hc) hunder
    exact ⟨(h.toLowercase_fixed name).mpr fun c hc => h.lowercase_fixed c (hall c hc),
      fun c hc => h.not_uppercase c (hall c hc)⟩
  · exact hlower

/-- A text that begins with a capital and has no underscore is read as Pascal case. -/
theorem takesSnake_capital (h : Documented t) {c : Char} {rest : Text} (hc : t.isUppercase c = true)
    (hunder : '_' ∉ c :: rest) : takesSnake t (c :: rest) = false := by
  have hlower : t.isLowercase c = false := by
    cases hl : t.isLowercase c with
    | false => rfl
    | true =>
        rw [h.not_uppercase c hl] at hc
        cases hc
  have hne : (c == '_') = false := beq_false_of_ne fun heq => hunder (heq ▸ List.mem_cons_self ..)
  unfold takesSnake
  rw [List.contains_eq_mem, decide_eq_false hunder, List.all_cons, hlower, hne]
  rfl

/-- The Pascal-case form begins with the capital of the first letter. -/
theorem pascalOf_cons {c : Char} {rest w : Text} {ws : List Text} (hsplit : split (c :: rest) '_' = (c :: w) :: ws)
    {u : Char} {us : Text} (hu : t.toUppercase c = u :: us) : ∃ more, pascalOf t (c :: rest) = u :: more :=
  ⟨us ++ w ++ ws.flatMap (capitalize t), by rw [pascalOf_eq hsplit, capitalize_cons, hu]; simp⟩

/-- Read as Pascal case, the capitals of words of lower-case letters come back as the words. -/
theorem normalizeName_pascalOf_iff (h : Documented t) {c : Char} {rest w : Text} {ws : List Text}
    (hsplit : split (c :: rest) '_' = (c :: w) :: ws) {u : Char} {us : Text} (hu : t.toUppercase c = u :: us)
    (hupper : t.isUppercase u = true) (hlower : ∀ x ∈ c :: rest, t.isUppercase x = false)
    (hwords : ∀ word ∈ split (c :: rest) '_', StartsWithLetter t word) :
    (normalizeName t (pascalOf t (c :: rest))).1 = c :: rest ↔
      ∀ word ∈ split (c :: rest) '_', StartsWithAscii word := by
  have htakes : takesSnake t (pascalOf t (c :: rest)) = false := by
    have hunder := underscore_not_mem_pascalOf h (c :: rest)
    obtain ⟨more, hmore⟩ := pascalOf_cons hsplit hu
    rw [hmore] at hunder ⊢
    exact takesSnake_capital h hupper hunder
  have hmem : ∀ word ∈ split (c :: rest) '_', ∀ x ∈ word, t.isUppercase x = false := fun word hword x hx =>
    hlower x (mem_of_mem_split hword x hx)
  have hjoin : c :: rest = (c :: w) ++ ws.flatMap ('_' :: ·) := split_append hsplit
  rw [hsplit, List.forall_mem_cons] at hmem hwords
  obtain ⟨⟨c', w', hcons, hletter⟩, hletters⟩ := hwords
  obtain ⟨rfl, rfl⟩ := List.cons.inj hcons
  have hword := @underscored_word t h true c w (ws.flatMap (capitalize t)) (ws.flatMap ('_' :: ·))
    hletter hmem.1 fun _ => ⟨u, us, hu, hupper⟩
  rw [normalizeName_pascal htakes, pascalOf_eq hsplit, hsplit, List.forall_mem_cons,
    ← underscored_words h hletters hmem.2, hjoin]
  refine hword.trans (and_congr_left fun _ => ?_)
  simp [StartsWithAscii]

theorem canonical_snake_iff (h : Documented t) {name : Text} (hname : Identifier t name)
    (hsnake : takesSnake t name = true) : Canonical t name ↔ SnakeSpelling t name := by
  obtain ⟨hfix, hlower⟩ := hname.lower h hsnake
  obtain ⟨c, rest, rfl, hletter⟩ := hname.letter
  have hnorm : normalizeName t (c :: rest) = (c :: rest, pascalOf t (c :: rest)) := by
    rw [normalizeName_snake hsnake, hfix]
  obtain ⟨u, us, hu⟩ := List.exists_cons_of_ne_nil (h.toUppercase_ne_nil c)
  obtain ⟨w, ws, hrest⟩ := exists_split rest '_'
  have hsplit : split (c :: rest) '_' = (c :: w) :: ws := split_cons_ne (ne_underscore h hletter) hrest
  obtain ⟨more, hmore⟩ := pascalOf_cons hsplit hu
  have hback := fun hupper => normalizeName_pascalOf_iff h hsplit hu hupper hlower
  constructor
  · intro hcanonical
    have hpascal := hcanonical.pascal
    obtain ⟨d, _, hd, hupper⟩ := hcanonical.capital
    rw [hnorm] at hd hpascal
    obtain rfl : u = d := (List.cons.inj (hmore.symm.trans hd)).1
    exact ⟨⟨c, rest, u, us, rfl, hu, hupper⟩, fun hwords => (hback hupper hwords).mp (hpascal hwords)⟩
  · intro hspelling
    obtain ⟨c', rest', u', us', hcons, hu', hupper⟩ := hspelling.capital
    obtain ⟨rfl, rfl⟩ := List.cons.inj hcons
    obtain ⟨rfl, rfl⟩ := List.cons.inj (hu.symm.trans hu')
    have hwords := hspelling.words
    refine { capital := ?_, lower := ?_, snake := ?_, pascal := ?_ } <;> rw [hnorm]
    · exact ⟨u, more, hmore, hupper⟩
    · exact hlower
    · exact hnorm
    · exact fun hletters => (hback hupper hletters).mpr (hwords hletters)

/-- What the Pascal-case reading consists of. -/
theorem mem_underscored {x : Char} {name : Text} : ∀ {first : Bool}, x ∈ underscored t first name →
    x = '_' ∨ ∃ y ∈ name, x = y.toLower := by
  induction name with
  | nil => intro first hx; cases hx
  | cons c rest ih =>
      intro first hx
      rw [underscored, List.mem_append, List.mem_cons] at hx
      obtain hx | rfl | hx := hx
      · by_cases hupper : (t.isUppercase c && !first) = true
        · rw [if_pos hupper] at hx
          exact Or.inl (List.mem_singleton.mp hx)
        · rw [if_neg hupper] at hx
          cases hx
      · exact Or.inr ⟨c, List.mem_cons_self .., rfl⟩
      · obtain rfl | ⟨y, hy, rfl⟩ := ih hx
        · exact Or.inl rfl
        · exact Or.inr ⟨y, List.mem_cons_of_mem _ hy, rfl⟩

theorem toLower_mem_underscored {y : Char} {name : Text} : ∀ {first : Bool}, y ∈ name →
    y.toLower ∈ underscored t first name := by
  induction name with
  | nil => intro first hy; cases hy
  | cons c rest ih =>
      intro first hy
      rw [underscored, List.mem_append, List.mem_cons]
      obtain rfl | hy := List.mem_cons.mp hy
      · exact Or.inr (Or.inl rfl)
      · exact Or.inr (Or.inr (ih hy))

/-- An underscore goes before a capital. -/
theorem underscore_mem_underscored {y : Char} {name : Text} (hy : y ∈ name) (hupper : t.isUppercase y = true) :
    '_' ∈ underscored t false name := by
  induction name with
  | nil => cases hy
  | cons c rest ih =>
      rw [underscored, List.mem_append, List.mem_cons]
      obtain rfl | hy := List.mem_cons.mp hy
      · rw [hupper]
        exact Or.inl (List.mem_singleton.mpr rfl)
      · exact Or.inr (Or.inr (ih hy))

/-- The snake-case form has no capital exactly if every capital is one of ASCII. -/
theorem underscored_lower_iff (h : Documented t) {name : Text} {first : Bool} :
    (∀ x ∈ underscored t first name, t.isUppercase x = false) ↔
      ∀ y ∈ name, t.isUppercase y = true → y.isUpper = true := by
  constructor
  · intro hlower y hy hupper
    by_contra hnot
    have := hlower _ (toLower_mem_underscored hy)
    rw [Char.toLower_eq_of_not_isUpper hnot, hupper] at this
    cases this
  · intro hcapitals x hx
    obtain rfl | ⟨y, hy, rfl⟩ := mem_underscored hx
    · exact h.isUppercase_underscore
    · cases hupper : t.isUppercase y with
      | true => exact h.not_uppercase _ (h.isLowercase_toLower (hcapitals y hy hupper))
      | false =>
          rw [h.toLower_eq hupper]
          exact hupper

/-- And it is its own lower case exactly if every other character of the name is. -/
theorem underscored_fixed_iff (h : Documented t) {name : Text} {first : Bool} :
    t.toLowercase (underscored t first name) = underscored t first name ↔
      ∀ y ∈ name, y.isUpper = true ∨ t.toLowercase [y] = [y] := by
  rw [h.toLowercase_fixed]
  constructor
  · intro hfixed y hy
    by_cases hupper : y.isUpper = true
    · exact Or.inl hupper
    · have := hfixed _ (toLower_mem_underscored hy)
      rw [Char.toLower_eq_of_not_isUpper hupper] at this
      exact Or.inr this
  · intro hfixed x hx
    obtain rfl | ⟨y, hy, rfl⟩ := mem_underscored hx
    · exact h.toLowercase_underscore
    · by_cases hupper : y.isUpper = true
      · exact h.lowercase_fixed _ (h.isLowercase_toLower hupper)
      · rw [Char.toLower_eq_of_not_isUpper hupper]
        exact (hfixed y hy).resolve_left hupper

/-- Read as snake case, the form gives the name again if it is its own lower case. -/
theorem normalizeName_snake_again (h : Documented t) {c : Char} {rest : Text} (hc : c.isUpper = true)
    (hunder : '_' ∉ rest) (hcapitals : ∀ y ∈ rest, t.isUppercase y = true → y.isUpper = true)
    (htakes : takesSnake t (c.toLower :: underscored t false rest) = true) :
    normalizeName t (c.toLower :: underscored t false rest)
        = (c.toLower :: underscored t false rest, c :: rest) ↔
      ∀ y ∈ rest, y.isUpper = true ∨ t.toLowercase [y] = [y] := by
  have hfixc : t.toLowercase [c.toLower] = [c.toLower] := h.lowercase_fixed _ (h.isLowercase_toLower hc)
  have hfixed : t.toLowercase (c.toLower :: underscored t false rest) = c.toLower :: underscored t false rest ↔
      ∀ y ∈ rest, y.isUpper = true ∨ t.toLowercase [y] = [y] := by
    rw [h.toLowercase_fixed, List.forall_mem_cons, ← h.toLowercase_fixed (underscored t false rest),
      underscored_fixed_iff h]
    exact and_iff_right hfixc
  rw [normalizeName_snake htakes, Prod.mk.injEq, ← hfixed]
  refine ⟨fun heq => heq.1, fun heq => ⟨heq, ?_⟩⟩
  rw [heq, pascalOf_underscored h hc hunder hcapitals]

/-- A single word is read as snake case again only if it consists of lower-case letters. -/
theorem takesSnake_word (h : Documented t) {c : Char} {rest : Text} (hc : c.isUpper = true) (hunder : '_' ∉ rest) :
    takesSnake t (c.toLower :: rest) = true ↔ ∀ y ∈ rest, t.isLowercase y = true := by
  have hnot : '_' ∉ c.toLower :: rest := by
    simp only [List.mem_cons, not_or]
    exact ⟨Ne.symm (toLower_ne_underscore hc), hunder⟩
  unfold takesSnake
  rw [List.contains_eq_mem, decide_eq_false hnot, Bool.false_or, List.all_cons, h.isLowercase_toLower hc,
    Bool.true_or, Bool.true_and, List.all_eq_true]
  refine forall₂_congr fun y hy => ?_
  have hne : (y == '_') = false := beq_false_of_ne fun heq => hunder (heq ▸ hy)
  rw [hne, Bool.or_false]

/-- The snake-case form of a name in Pascal case is read as snake case, and gives the name again. -/
theorem normalizeName_underscored_iff (h : Documented t) {c : Char} {rest : Text} (hc : c.isUpper = true)
    (hunder : '_' ∉ rest) (hcapitals : ∀ y ∈ rest, t.isUppercase y = true → y.isUpper = true) :
    normalizeName t (c.toLower :: underscored t false rest)
        = (c.toLower :: underscored t false rest, c :: rest) ↔
      (∀ y ∈ rest, y.isUpper = true ∨ t.toLowercase [y] = [y]) ∧
        ((∀ y ∈ rest, t.isLowercase y = true) ∨ ∃ y ∈ rest, t.isUppercase y = true) := by
  by_cases hany : ∃ y ∈ rest, t.isUppercase y = true
  · obtain ⟨y, hy, hupper⟩ := hany
    have hmem : '_' ∈ c.toLower :: underscored t false rest :=
      List.mem_cons_of_mem _ (underscore_mem_underscored hy hupper)
    have htakes : takesSnake t (c.toLower :: underscored t false rest) = true := by
      unfold takesSnake
      rw [List.contains_eq_mem, decide_eq_true hmem, Bool.true_or]
    rw [normalizeName_snake_again h hc hunder hcapitals htakes]
    exact (and_iff_left (Or.inr ⟨y, hy, hupper⟩)).symm
  · have hnone : ∀ y ∈ rest, t.isUppercase y = false := fun y hy => by
      simpa using fun hupper => hany ⟨y, hy, hupper⟩
    have hsame : underscored t false rest = rest := by
      have := underscored_append h hnone []
      simpa [underscored] using this
    by_cases hall : ∀ y ∈ rest, t.isLowercase y = true
    · have htakes : takesSnake t (c.toLower :: underscored t false rest) = true := by
        rw [hsame]
        exact (takesSnake_word h hc hunder).mpr hall
      rw [normalizeName_snake_again h hc hunder hcapitals htakes]
      exact (and_iff_left (Or.inl hall)).symm
    · -- the word is taken for Pascal case again, and keeps its lower-case letter in front
      have htakes : takesSnake t (c.toLower :: rest) = false :=
        Bool.eq_false_iff.mpr fun hsnake => hall ((takesSnake_word h hc hunder).mp hsnake)
      have hne : c.toLower ≠ c := by
        intro heq
        have hlower := isLower_toLower hc
        rw [heq] at hlower
        exact Char.not_isLower_of_isUpper hc hlower
      rw [hsame, normalizeName_pascal htakes]
      constructor
      · intro heq
        exact absurd (List.cons.inj (Prod.mk.inj heq).2).1 hne
      · rintro ⟨-, hlower | hsome⟩
        · exact absurd hlower hall
        · exact absurd hsome hany

theorem canonical_pascal_iff (h : Documented t) {name : Text} (hname : Identifier t name)
    (hpascal : takesSnake t name = false) : Canonical t name ↔ PascalSpelling t name := by
  obtain ⟨c, rest, rfl, -⟩ := hname.letter
  have hunder : '_' ∉ rest := by
    unfold takesSnake at hpascal
    intro hmem
    rw [List.contains_eq_mem, decide_eq_true (List.mem_cons_of_mem _ hmem), Bool.true_or] at hpascal
    cases hpascal
  have hnorm : normalizeName t (c :: rest) = (underscored t true (c :: rest), c :: rest) :=
    normalizeName_pascal hpascal
  have hform : underscored t true (c :: rest) = c.toLower :: underscored t false rest := by
    rw [underscored, Bool.not_true, Bool.and_false]
    rfl
  constructor
  · intro hcanonical
    have hlower := hcanonical.lower
    have hsnake := hcanonical.snake
    obtain ⟨d, more, hd, hupper⟩ := hcanonical.capital
    rw [hnorm] at hd hlower hsnake
    obtain ⟨rfl, rfl⟩ := List.cons.inj hd
    obtain ⟨hc, hcapitals⟩ := List.forall_mem_cons.mp ((underscored_lower_iff h).mp hlower)
    rw [hform] at hsnake
    obtain ⟨hfixed, hrest⟩ := (normalizeName_underscored_iff h (hc hupper) hunder hcapitals).mp hsnake
    refine ⟨c, rest, rfl, hc hupper, ?_, hrest⟩
    intro y hy
    by_cases hcapital : y.isUpper = true
    · exact Or.inl hcapital
    · refine Or.inr ⟨?_, (hfixed y hy).resolve_left hcapital⟩
      simpa using fun hu => hcapital (hcapitals y hy hu)
  · rintro ⟨d, more, hd, hc, hothers, hrest⟩
    obtain ⟨rfl, rfl⟩ := List.cons.inj hd
    have hcapitals : ∀ y ∈ rest, t.isUppercase y = true → y.isUpper = true := by
      intro y hy hupper
      obtain hcapital | ⟨hnot, -⟩ := hothers y hy
      · exact hcapital
      · rw [hnot] at hupper
        cases hupper
    refine { capital := ?_, lower := ?_, snake := ?_, pascal := ?_ } <;> rw [hnorm]
    · exact ⟨c, rest, rfl, h.isUppercase_of_isUpper hc⟩
    · exact (underscored_lower_iff h).mpr (List.forall_mem_cons.mpr ⟨fun _ => hc, hcapitals⟩)
    · rw [hform]
      refine (normalizeName_underscored_iff h hc hunder hcapitals).mpr ⟨fun y hy => ?_, hrest⟩
      exact (hothers y hy).imp id fun hother => hother.2
    · exact fun _ => congrArg Prod.fst hnorm

/--
**The two forms are canonical exactly for these spellings.**  For every name with a
letter in front that is in snake case, camel case or Pascal case: the Pascal-case
form begins with a capital, the snake-case form has none and gives both forms
again, and the Pascal-case form gives it where every word begins with a letter, if
and only if the name is in snake case, its words beginning with letters of ASCII,
or begins with a capital and has another one or else only lower-case letters.
-/
theorem normalizeName_canonical_iff (t : Tables) (h : Documented t) (name : Text) (hname : Identifier t name) :
    Canonical t name ↔ CanonicalSpelling t name := by
  unfold CanonicalSpelling
  cases hsnake : takesSnake t name with
  | true =>
      rw [if_pos rfl]
      exact canonical_snake_iff h hname hsnake
  | false =>
      rw [if_neg Bool.false_ne_true]
      exact canonical_pascal_iff h hname hsnake

theorem normalizeName_canonical_iff_room : Canonical ascii "RoomMessage".toList := by
  refine (normalizeName_canonical_iff ascii ascii_documented _ ⟨⟨'R', "oomMessage".toList, rfl, rfl⟩, ?_⟩).mpr ?_
  · exact Or.inl (by decide)
  · unfold CanonicalSpelling
    rw [if_neg (by decide)]
    refine ⟨'R', "oomMessage".toList, rfl, rfl, by simp [ascii], Or.inr ⟨'M', by decide, rfl⟩⟩

/-- Then both spellings have the same forms. -/
theorem Canonical.same (h : Documented t) {name : Text} (hname : Canonical t name)
    (hwords : ∀ word ∈ split (normalizeName t name).1 '_', StartsWithLetter t word) :
    normalizeName t (normalizeName t name).2 = normalizeName t name := by
  obtain ⟨c, rest, hcons, hupper⟩ := hname.capital
  have hunder : '_' ∉ (normalizeName t name).2 := by
    cases hsnake : takesSnake t name with
    | true =>
        rw [normalizeName_snake hsnake]
        exact underscore_not_mem_pascalOf h _
    | false =>
        rw [normalizeName_pascal hsnake]
        intro hmem
        unfold takesSnake at hsnake
        rw [List.contains_eq_mem, decide_eq_true hmem, Bool.true_or] at hsnake
        cases hsnake
  have htakes : takesSnake t (normalizeName t name).2 = false := by
    rw [hcons] at hunder ⊢
    exact takesSnake_capital h hupper hunder
  refine Prod.ext (hname.pascal hwords) ?_
  rw [normalizeName_pascal htakes]

/-- And a command does the same for both of them. -/
theorem resource_of_spellings (h : Documented t) (writable : Text → Bool) {name : Text} (hname : Canonical t name)
    (hwords : ∀ word ∈ split (normalizeName t name).1 '_', StartsWithLetter t word) (p : Project) :
    resource t writable (normalizeName t name).1 p = resource t writable name p ∧
      resource t writable (normalizeName t name).2 p = resource t writable name p := by
  have hsame := hname.same h hwords
  have hsnake := hname.snake
  unfold resource
  rw [hsnake, hsame]
  exact ⟨rfl, rfl⟩

/-- A digit, or a capital behind a lower-case letter: no capital in front, or no way back. -/
theorem room_not_canonical :
    normalizeName ascii "room2".toList = ("room2".toList, "room2".toList) ∧
      normalizeName ascii "roomMessage".toList = ("room_message".toList, "roomMessage".toList) ∧
      normalizeName ascii "Room2".toList = ("room2".toList, "Room2".toList) ∧
      ¬Canonical ascii "room2".toList ∧ ¬Canonical ascii "roomMessage".toList ∧
      ¬Canonical ascii "Room2".toList := by
  have hword : normalizeName ascii "room2".toList = ("room2".toList, "room2".toList) := by decide +kernel
  have hcamel : normalizeName ascii "roomMessage".toList = ("room_message".toList, "roomMessage".toList) := by
    decide +kernel
  have hpascal : normalizeName ascii "Room2".toList = ("room2".toList, "Room2".toList) := by decide +kernel
  refine ⟨hword, hcamel, hpascal, ?_, ?_, ?_⟩
  · intro hcanonical
    obtain ⟨c, rest, hcons, hupper⟩ := hcanonical.capital
    rw [hword] at hcons
    rw [← (List.cons.inj hcons).1] at hupper
    exact absurd hupper (by decide)
  · intro hcanonical
    obtain ⟨c, rest, hcons, hupper⟩ := hcanonical.capital
    rw [hcamel] at hcons
    rw [← (List.cons.inj hcons).1] at hupper
    exact absurd hupper (by decide)
  · intro hcanonical
    have hsnake := hcanonical.snake
    rw [hpascal, hword] at hsnake
    exact absurd hsnake (by decide)

end Mahalo.Cargo
