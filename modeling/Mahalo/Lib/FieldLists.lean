/-
Lists in header fields.

A field whose value is a list may be given more than once, and its fields together are
one list.  The elements stand between commas, with blanks around them, and the names
among them are compared without regard to letter case.  A field that is such a name and
nothing else lists it.  A list of preferences gives its names weights, and accepts those
whose weight is not zero, and under `*` those that it does not name.
-/
import Mahalo.Lib.Utf8
import Mathlib.Data.List.DropRight

namespace FieldLists

open RustStd

abbrev Bytes := List UInt8

def comma : UInt8 := 44

/-- Optional whitespace: a space or a tab. -/
def isBlank (b : UInt8) : Bool := b == 32 || b == 9

def trimBlanks (value : Bytes) : Bytes := (value.dropWhile isBlank).rdropWhile isBlank

/-- The elements of the list that a field's value is. -/
def elements (value : Bytes) : List Bytes := (value.splitOn comma).map trimBlanks

/-- Two names that differ in letter case at most. -/
def sameName (s t : Bytes) : Bool := s.map toAsciiLowercase == t.map toAsciiLowercase

/-- One of the fields has this name among its elements. -/
def lists (name : Bytes) (fields : List Bytes) : Bool :=
  fields.any fun value => (elements value).any fun element => sameName element name

/-- A name without a comma, a space or a tab in it. -/
def IsName (name : Bytes) : Prop := ∀ b ∈ name, b ≠ comma ∧ isBlank b = false

instance : DecidablePred IsName := fun name =>
  decidable_of_iff ((name.all fun b => b != comma && !isBlank b) = true) (by simp [IsName])

theorem sameName_iff {s t : Bytes} :
    sameName s t = true ↔ s.map toAsciiLowercase = t.map toAsciiLowercase := by
  unfold sameName
  exact beq_iff_eq

/-- Letter case does not make a comma or a blank. -/
theorem toAsciiLowercase_separator (b : UInt8) :
    (toAsciiLowercase b = comma ↔ b = comma) ∧ isBlank (toAsciiLowercase b) = isBlank b := by
  by_cases h : 65 ≤ b ∧ b ≤ 90
  · have hlow : ∀ n ∈ List.range' 65 26, (UInt8.ofNat n + 32 ≠ comma ∧ UInt8.ofNat n ≠ comma) ∧
        isBlank (UInt8.ofNat n + 32) = isBlank (UInt8.ofNat n) := by decide
    have hmem : b.toNat ∈ List.range' 65 26 := by
      rw [UInt8.le_iff_toNat_le, UInt8.le_iff_toNat_le] at h
      have h1 : 65 ≤ b.toNat := h.1
      have h2 : b.toNat ≤ 90 := h.2
      rw [List.mem_range'_1]
      omega
    have hb := hlow b.toNat hmem
    rw [UInt8.ofNat_toNat] at hb
    unfold toAsciiLowercase
    rw [if_pos h]
    exact ⟨iff_of_false hb.1.1 hb.1.2, hb.2⟩
  · unfold toAsciiLowercase
    rw [if_neg h]
    exact ⟨Iff.rfl, rfl⟩

theorem IsName.of_sameName {s t : Bytes} (ht : IsName t) (h : sameName s t = true) : IsName s := by
  intro b hb
  obtain ⟨hcomma, hblank⟩ := toAsciiLowercase_separator b
  have hmem : toAsciiLowercase b ∈ t.map toAsciiLowercase := by
    rw [← sameName_iff.mp h]
    exact List.mem_map_of_mem hb
  obtain ⟨b', hb', heq⟩ := List.mem_map.mp hmem
  obtain ⟨hcomma', hblank'⟩ := toAsciiLowercase_separator b'
  rw [heq] at hcomma' hblank'
  refine ⟨?_, ?_⟩
  · intro hc
    exact (ht b' hb').1 (hcomma'.mp (hcomma.mpr hc))
  · rw [← hblank, hblank', (ht b' hb').2]

theorem trimBlanks_name {name : Bytes} (h : IsName name) : trimBlanks name = name := by
  have hdrop : name.dropWhile isBlank = name := by
    cases name with
    | nil => rfl
    | cons b rest => exact List.dropWhile_cons_of_neg (by simp [(h b (by simp)).2])
  unfold trimBlanks
  rw [hdrop]
  induction name using List.reverseRecOn with
  | nil => rfl
  | append_singleton name b _ =>
      rw [List.rdropWhile_concat, if_neg]
      simp [(h b (by simp)).2]

/-- A field that is a name has that one element. -/
theorem elements_name {name : Bytes} (h : IsName name) : elements name = [name] := by
  have hcomma : comma ∉ name := fun hmem => (h comma hmem).1 rfl
  unfold elements
  rw [List.splitOn_eq_singleton hcomma, List.map_singleton, trimBlanks_name h]

/-- A field that is a name lists it. -/
theorem lists_of_whole {name value : Bytes} {fields : List Bytes} (hname : IsName name)
    (hmem : value ∈ fields) (h : sameName value name = true) : lists name fields = true := by
  refine List.any_eq_true.mpr ⟨value, hmem, ?_⟩
  rw [elements_name (hname.of_sameName h), List.any_cons, h]
  rfl

/-- What text a field has decides which name it is, if it is one. -/
theorem sameName_of_text {value : Bytes} {text : String} (h : fromUtf8 value = some text) (name : String) :
    eqIgnoreAsciiCase text name = sameName value (asBytes name) := by
  rw [Bool.eq_iff_iff, eqIgnoreAsciiCase_iff, asBytes_of_fromUtf8 h, sameName_iff]

/-- A field that is a name in ASCII is a text. -/
theorem text_of_sameName {value name : Bytes} (hname : name.all (· < 0x80) = true)
    (h : sameName value name = true) : ∃ text, fromUtf8 value = some text := by
  refine ⟨_, fromUtf8_ascii ?_⟩
  intro b hb
  have hmem : toAsciiLowercase b ∈ name.map toAsciiLowercase := by
    rw [← sameName_iff.mp h]
    exact List.mem_map_of_mem hb
  obtain ⟨b', hb', heq⟩ := List.mem_map.mp hmem
  rw [← toAsciiLowercase_ascii, ← heq, toAsciiLowercase_ascii]
  exact of_decide_eq_true (List.all_eq_true.mp hname b' hb')

example : lists (asBytes "close") [asBytes "Keep-Alive,\tTE", asBytes "te , CLOSE"] = true := by decide

/-! ### Preferences -/

def semicolon : UInt8 := 59

/-- What stands before the parameters of an element. -/
def nameOf (element : Bytes) : Bytes := trimBlanks ((element.splitOn semicolon).headD [])

/-- What stands behind `q=` in the element's first such parameter. -/
def weight (element : Bytes) : Option Bytes :=
  (((element.splitOn semicolon).tail.map trimBlanks).find? fun p => sameName (p.take 2) (asBytes "q=")).map
    (·.drop 2)

/-- The weight is left out, or has a figure in it that is not 0. -/
def wanted (element : Bytes) : Bool := (weight element).all fun w => w.any fun b => 49 ≤ b && b ≤ 57

/-- The name is among the elements, or `*` is, with a weight; and it is not refused by one of them. -/
def accepts (value name : Bytes) : Bool :=
  ((elements value).all fun e => !sameName (nameOf e) name || wanted e) &&
    (elements value).any fun e => (sameName (nameOf e) name || nameOf e == asBytes "*") && wanted e

example : ["br", "gzip", "zstd"].map (accepts (asBytes "GZIP ; q=0.5, x-br, *;Q=0.001, zstd;q=0.000") <| asBytes ·)
    = [true, true, false] := by
  decide

end FieldLists
