/-
Letter case beyond ASCII.

Which characters are letters, which of them are lower or upper case, and what the
conversions make of them, is in tables that change with the version of Unicode.
`Tables` leaves them open; `Documented` is what every version has in common: ASCII
is as in `Char`, a lower-case character is its own lower case, a string is its own
lower case when each of its characters is, and a conversion brings in no ASCII
characters but letters.
-/
import Mathlib

namespace LetterCase

structure Tables where
  /-- `char::is_alphabetic`, `char::is_lowercase` and `char::is_uppercase` -/
  isAlphabetic : Char → Bool
  isLowercase : Char → Bool
  isUppercase : Char → Bool
  /-- `char::to_uppercase`: more than one character for some -/
  toUppercase : Char → List Char
  /-- `str::to_lowercase`: what becomes of a sigma depends on where it stands -/
  toLowercase : List Char → List Char

structure Documented (t : Tables) : Prop where
  isAlphabetic_ascii : ∀ c : Char, c.toNat < 128 → t.isAlphabetic c = c.isAlpha
  isLowercase_ascii : ∀ c : Char, c.toNat < 128 → t.isLowercase c = c.isLower
  isUppercase_ascii : ∀ c : Char, c.toNat < 128 → t.isUppercase c = c.isUpper
  toUppercase_ascii : ∀ c : Char, c.toNat < 128 → t.toUppercase c = [c.toUpper]
  toLowercase_ascii : ∀ c : Char, c.toNat < 128 → t.toLowercase [c] = [c.toLower]
  not_uppercase : ∀ c, t.isLowercase c = true → t.isUppercase c = false
  lowercase_fixed : ∀ c, t.isLowercase c = true → t.toLowercase [c] = [c]
  toLowercase_fixed : ∀ s, t.toLowercase s = s ↔ ∀ c ∈ s, t.toLowercase [c] = [c]
  toUppercase_ne_nil : ∀ c, t.toUppercase c ≠ []
  toUppercase_new : ∀ c, ∀ d ∈ t.toUppercase c, d = c ∨ d.isAlpha = true ∨ 128 ≤ d.toNat
  toLowercase_new : ∀ s, ∀ d ∈ t.toLowercase s, d ∈ s ∨ d.isAlpha = true ∨ 128 ≤ d.toNat

/-- The tables of ASCII, where no other character has a case. -/
def ascii : Tables where
  isAlphabetic := Char.isAlpha
  isLowercase := Char.isLower
  isUppercase := Char.isUpper
  toUppercase := fun c => [c.toUpper]
  toLowercase := fun s => s.map Char.toLower

/-! ### The letters of ASCII -/

theorem ascii_of_isUpper {c : Char} (h : c.isUpper = true) : c.toNat < 128 := by
  simp [Char.isUpper, UInt32.le_iff_toNat_le] at h
  omega

theorem ascii_of_isLower {c : Char} (h : c.isLower = true) : c.toNat < 128 := by
  simp [Char.isLower, UInt32.le_iff_toNat_le] at h
  omega

theorem isLower_toLower {c : Char} (h : c.isUpper = true) : c.toLower.isLower = true := by
  rw [Char.isLower_toLower_eq_isAlpha, Char.isAlpha, h, Bool.true_or]

theorem isUpper_toUpper {c : Char} (h : c.isLower = true) : c.toUpper.isUpper = true := by
  rw [Char.isUpper_toUpper_eq_isAlpha, Char.isAlpha, h, Bool.or_true]

theorem toUpper_toLower {c : Char} (h : c.isUpper = true) : c.toLower.toUpper = c := by
  rw [Char.toUpper_toLower_eq_toUpper,
    Char.toUpper_eq_of_not_isLower (Char.not_isLower_of_isUpper h)]

theorem toLower_toUpper {c : Char} (h : c.isLower = true) : c.toUpper.toLower = c := by
  rw [Char.toLower_toUpper_eq_toLower,
    Char.toLower_eq_of_not_isUpper (Char.not_isUpper_of_isLower h)]

theorem ascii_documented : Documented ascii where
  isAlphabetic_ascii := fun _ _ => rfl
  isLowercase_ascii := fun _ _ => rfl
  isUppercase_ascii := fun _ _ => rfl
  toUppercase_ascii := fun _ _ => rfl
  toLowercase_ascii := fun _ _ => rfl
  not_uppercase := fun _ h => Bool.eq_false_iff.mpr (Char.not_isUpper_of_isLower h)
  lowercase_fixed := fun _ h =>
    congrArg (· :: []) (Char.toLower_eq_of_not_isUpper (Char.not_isUpper_of_isLower h))
  toLowercase_fixed := by
    intro s
    simp only [ascii, List.map_cons, List.map_nil, List.cons.injEq, and_true]
    induction s with
    | nil => simp
    | cons c s ih => simp [ih]
  toUppercase_ne_nil := fun _ => List.cons_ne_nil _ _
  toUppercase_new := by
    intro c d hd
    obtain rfl := List.mem_singleton.mp hd
    by_cases hc : c.isLower = true
    · exact Or.inr (Or.inl (by rw [Char.isAlpha, isUpper_toUpper hc, Bool.true_or]))
    · exact Or.inl (Char.toUpper_eq_of_not_isLower hc)
  toLowercase_new := by
    intro s d hd
    obtain ⟨c, hc, rfl⟩ := List.mem_map.mp hd
    by_cases hupper : c.isUpper = true
    · exact Or.inr (Or.inl (by rw [Char.isAlpha, isLower_toLower hupper, Bool.or_true]))
    · exact Or.inl ((Char.toLower_eq_of_not_isUpper hupper).symm ▸ hc)

/-! ### What follows for any tables -/

namespace Documented

variable {t : Tables} (h : Documented t)

include h

theorem isUppercase_of_isUpper {c : Char} (hc : c.isUpper = true) : t.isUppercase c = true := by
  rw [h.isUppercase_ascii c (ascii_of_isUpper hc), hc]

/-- The lower case of ASCII leaves a character that is no capital as it is. -/
theorem toLower_eq {c : Char} (hc : t.isUppercase c = false) : c.toLower = c := by
  refine Char.toLower_eq_of_not_isUpper fun hupper => ?_
  rw [h.isUppercase_of_isUpper hupper] at hc
  cases hc

theorem isLowercase_toLower {c : Char} (hc : c.isUpper = true) : t.isLowercase c.toLower = true := by
  have hlower := isLower_toLower hc
  rw [h.isLowercase_ascii _ (ascii_of_isLower hlower), hlower]

theorem toUppercase_toLower {c : Char} (hc : c.isUpper = true) : t.toUppercase c.toLower = [c] := by
  rw [h.toUppercase_ascii _ (ascii_of_isLower (isLower_toLower hc)), toUpper_toLower hc]

theorem isAlphabetic_underscore : t.isAlphabetic '_' = false := h.isAlphabetic_ascii '_' (by decide)

theorem isUppercase_underscore : t.isUppercase '_' = false := h.isUppercase_ascii '_' (by decide)

theorem toLowercase_underscore : t.toLowercase ['_'] = ['_'] := h.toLowercase_ascii '_' (by decide)

/-- No conversion brings in a character of ASCII that is no letter. -/
theorem not_mem_toUppercase {c d : Char} (hd : d.isAlpha = false) (hascii : d.toNat < 128) (hne : d ≠ c) :
    d ∉ t.toUppercase c := by
  intro hmem
  obtain heq | halpha | hlarge := h.toUppercase_new c d hmem
  · exact hne heq
  · rw [hd] at halpha
    cases halpha
  · omega

theorem not_mem_toLowercase {s : List Char} {d : Char} (hd : d.isAlpha = false) (hascii : d.toNat < 128)
    (hs : d ∉ s) : d ∉ t.toLowercase s := by
  intro hmem
  obtain heq | halpha | hlarge := h.toLowercase_new s d hmem
  · exact hs heq
  · rw [hd] at halpha
    cases halpha
  · omega

end Documented

end LetterCase
