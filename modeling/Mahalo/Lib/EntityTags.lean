/-
Entity tags, and lists of them.

A tag is a text in quotes, with `W/` before it if it is weak.  A list of tags is read from one
quote to the next, since a tag's text may have commas in it; what stands between the tags is
passed over.  Two tags are weakly equal if their texts are the same.
-/
import Mathlib.Data.List.Basic
import Mathlib.Tactic.Basic

namespace EntityTags

abbrev Bytes := List UInt8

def quote : UInt8 := 34

structure Tag where
  weak : Bool
  text : Bytes
  deriving DecidableEq, Repr

def write (tag : Tag) : Bytes := (if tag.weak then [87, 47] else []) ++ quote :: tag.text ++ [quote]

/-- Where a reader is: between two tags, or within one, of which it has this much. -/
inductive State where
  | between
  | within (weak : Bool) (text : Bytes)

def scan : State → Bytes → List Tag
  | .between, [] => []
  | .between, 87 :: 47 :: 34 :: rest => scan (.within true []) rest
  | .between, b :: rest => if b = quote then scan (.within false []) rest else scan .between rest
  | .within .., [] => []
  | .within weak text, b :: rest =>
      if b = quote then { weak, text } :: scan .between rest else scan (.within weak (text ++ [b])) rest

/-- The tags of a list. -/
def read (value : Bytes) : List Tag := scan .between value

def weaklyEqual (tag other : Tag) : Bool := tag.text == other.text

theorem scan_within {text : Bytes} (h : quote ∉ text) (weak : Bool) (rest : Bytes) : ∀ before,
    scan (.within weak before) (text ++ quote :: rest) = { weak, text := before ++ text } :: scan .between rest := by
  induction text with
  | nil =>
    intro before
    rw [List.nil_append, scan, if_pos rfl, List.append_nil]
  | cons b text ih =>
    intro before
    obtain ⟨hb, htext⟩ : quote ≠ b ∧ quote ∉ text := by simpa using h
    rw [List.cons_append, scan, if_neg (Ne.symm hb), ih htext, List.append_assoc]
    rfl

/-- A tag is read back, whatever stands behind it. -/
theorem read_write {tag : Tag} (h : quote ∉ tag.text) (rest : Bytes) :
    read (write tag ++ rest) = tag :: read rest := by
  obtain ⟨weak, text⟩ := tag
  have hwithin := scan_within h weak rest []
  have hquoted : quote :: text ++ [quote] ++ rest = quote :: (text ++ quote :: rest) := by simp
  cases weak with
  | true =>
    show scan .between (87 :: 47 :: (quote :: text ++ [quote]) ++ rest) = _
    rw [List.cons_append, List.cons_append, hquoted]
    exact hwithin
  | false =>
    show scan .between ((quote :: text ++ [quote]) ++ rest) = _
    rw [hquoted, scan, if_pos rfl]
    · exact hwithin
    · simp [quote]

/-- What stands between two tags. -/
def comma : Bytes := [44, 32]

theorem read_comma (rest : Bytes) : read (comma ++ rest) = read rest := by
  show scan .between (44 :: 32 :: rest) = scan .between rest
  rw [scan, if_neg (by decide), scan, if_neg (by decide)]
  · simp
  · simp

/-- **A list of tags is read back.** -/
theorem read_list {tags : List Tag} (h : ∀ tag ∈ tags, quote ∉ tag.text) :
    read (comma.intercalate (tags.map write)) = tags := by
  induction tags with
  | nil => rfl
  | cons tag more ih =>
    obtain ⟨htag, hmore⟩ := List.forall_mem_cons.mp h
    cases more with
    | nil =>
      have hnil : read [] = [] := rfl
      have hone := read_write htag []
      rw [List.append_nil, hnil] at hone
      simpa [List.intercalate] using hone
    | cons next more =>
      have hjoin : comma.intercalate ((tag :: next :: more).map write)
          = write tag ++ (comma ++ comma.intercalate ((next :: more).map write)) := by
        simp [List.intercalate]
      rw [hjoin, read_write htag, read_comma, ih hmore]

example : read [87, 47, 34, 97, 34, 44, 34, 44, 34] = [{ weak := true, text := [97] }, { weak := false, text := [44] }] := by
  decide

end EntityTags
