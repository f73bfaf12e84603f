/-
The pieces of Rust's standard library the server's parsers lean on.

`decodeOne` is the step of `core::str::lossy`: a well-formed UTF-8 sequence gives
its character, and anything else gives the longest prefix that could still have
begun one.  `String::from_utf8_lossy` writes U+FFFD for each such prefix, and
`str::from_utf8` refuses the whole.

Strings are worked on as lists of characters, byte strings as lists of `UInt8`.
-/
import Mathlib.Algebra.Group.Nat.Defs
import Mathlib.Data.List.Basic
import Mathlib.Data.List.Infix
import Mathlib.Data.List.TakeDrop

namespace RustStd

/-! ### UTF-8 -/

/-- How many bytes a sequence starting with this byte has; 0 where none does. -/
def utf8Width (b : UInt8) : Nat :=
  if b < 0x80 then 1
  else if 0xC2 ≤ b ∧ b ≤ 0xDF then 2
  else if 0xE0 ≤ b ∧ b ≤ 0xEF then 3
  else if 0xF0 ≤ b ∧ b ≤ 0xF4 then 4
  else 0

/-- `10xxxxxx`; a byte past the end reads as 0 and is none. -/
def isCont (b : UInt8) : Bool := 0x80 ≤ b ∧ b ≤ 0xBF

/-- What may follow the first byte: the overlong forms and the surrogates are cut out here. -/
def secondOk (b0 b1 : UInt8) : Bool :=
  if b0 = 0xE0 then 0xA0 ≤ b1 ∧ b1 ≤ 0xBF
  else if b0 = 0xED then 0x80 ≤ b1 ∧ b1 ≤ 0x9F
  else if b0 = 0xF0 then 0x90 ≤ b1 ∧ b1 ≤ 0xBF
  else if b0 = 0xF4 then 0x80 ≤ b1 ∧ b1 ≤ 0x8F
  else isCont b1

/-- The six bits that a continuation byte carries. -/
def tail6 (b : UInt8) : Nat := b.toNat % 64

/-- One step of the decoder: the character, if the bytes in front are one, and how many they are. -/
def decodeOne (b0 : UInt8) (rest : List UInt8) : Option Char × Nat :=
  let b1 := rest.getD 0 0
  let b2 := rest.getD 1 0
  let b3 := rest.getD 2 0
  match utf8Width b0 with
  | 1 => (some (Char.ofNat b0.toNat), 1)
  | 2 =>
      if !secondOk b0 b1 then (none, 1)
      else (some (Char.ofNat (b0.toNat % 32 * 64 + tail6 b1)), 2)
  | 3 =>
      if !secondOk b0 b1 then (none, 1)
      else if !isCont b2 then (none, 2)
      else (some (Char.ofNat ((b0.toNat % 16 * 64 + tail6 b1) * 64 + tail6 b2)), 3)
  | 4 =>
      if !secondOk b0 b1 then (none, 1)
      else if !isCont b2 then (none, 2)
      else if !isCont b3 then (none, 3)
      else (some (Char.ofNat (((b0.toNat % 8 * 64 + tail6 b1) * 64 + tail6 b2) * 64 + tail6 b3)), 4)
  | _ => (none, 1)

/-- The characters of a byte string, `none` for each ill-formed stretch. -/
def utf8Chunks : Nat → List UInt8 → List (Option Char)
  | 0, _ => []
  | _, [] => []
  | fuel + 1, b :: rest =>
      (decodeOne b rest).1 :: utf8Chunks fuel ((b :: rest).drop (decodeOne b rest).2)

/-- `std::str::from_utf8`. -/
def fromUtf8 (bs : List UInt8) : Option String :=
  ((utf8Chunks bs.length bs).mapM id).map String.ofList

/-- `String::from_utf8_lossy`. -/
def fromUtf8Lossy (bs : List UInt8) : String :=
  String.ofList ((utf8Chunks bs.length bs).map (·.getD '\uFFFD'))

/-- The UTF-8 bytes of one character. -/
def encodeChar (c : Char) : List UInt8 :=
  let n := c.toNat
  if n < 0x80 then [UInt8.ofNat n]
  else if n < 0x800 then [UInt8.ofNat (0xC0 + n / 64), UInt8.ofNat (0x80 + n % 64)]
  else if n < 0x10000 then
    [UInt8.ofNat (0xE0 + n / 4096), UInt8.ofNat (0x80 + n / 64 % 64), UInt8.ofNat (0x80 + n % 64)]
  else
    [UInt8.ofNat (0xF0 + n / 262144), UInt8.ofNat (0x80 + n / 4096 % 64),
      UInt8.ofNat (0x80 + n / 64 % 64), UInt8.ofNat (0x80 + n % 64)]

/-- `str::as_bytes`. -/
def asBytes (s : String) : List UInt8 := s.toList.flatMap encodeChar

/-! ### `str` -/

/-- `char::is_whitespace`: the Unicode property White_Space. -/
def isWhitespace (c : Char) : Bool :=
  let n := c.toNat
  (9 ≤ n && n ≤ 13) || n == 0x20 || n == 0x85 || n == 0xA0 || n == 0x1680 ||
    (0x2000 ≤ n && n ≤ 0x200A) || n == 0x2028 || n == 0x2029 || n == 0x202F || n == 0x205F ||
    n == 0x3000

/-- `str::trim`. -/
def trim (s : List Char) : List Char :=
  ((s.dropWhile isWhitespace).reverse.dropWhile isWhitespace).reverse

/-- `str::starts_with` and `str::ends_with`. -/
def startsWith (s pre : List Char) : Bool := pre.isPrefixOf s
def endsWith (s suf : List Char) : Bool := suf.isSuffixOf s

/-- `str::contains` of a string. -/
def contains (s pat : List Char) : Bool := s.tails.any (startsWith · pat)

/-- `str::replacen` with the count 1. -/
def replaceFirst : List Char → List Char → List Char → List Char
  | [], pat, replacement => if pat.isEmpty then replacement else []
  | c :: s, pat, replacement =>
      if startsWith (c :: s) pat then replacement ++ (c :: s).drop pat.length
      else c :: replaceFirst s pat replacement

theorem contains_iff_isInfix {s pat : List Char} : contains s pat = true ↔ pat <:+: s := by
  unfold contains startsWith
  simp only [List.any_eq_true, List.mem_tails, List.isPrefixOf_iff_prefix]
  rw [List.infix_iff_prefix_suffix]
  exact ⟨fun ⟨t, ht, hp⟩ => ⟨t, hp, ht⟩, fun ⟨t, hp, ht⟩ => ⟨t, ht, hp⟩⟩

/-- What is replaced is some occurrence, the same one for every replacement. -/
theorem replaceFirst_eq {s pat : List Char} (h : pat <:+: s) :
    ∃ before behind, s = before ++ pat ++ behind ∧
      ∀ replacement, replaceFirst s pat replacement = before ++ replacement ++ behind := by
  induction s with
  | nil =>
      obtain rfl := List.infix_nil.mp h
      exact ⟨[], [], rfl, fun replacement => by simp [replaceFirst]⟩
  | cons c s ih =>
      by_cases hpre : startsWith (c :: s) pat = true
      · obtain ⟨behind, hbehind⟩ := List.isPrefixOf_iff_prefix.mp hpre
        refine ⟨[], behind, hbehind.symm, fun replacement => ?_⟩
        rw [replaceFirst, if_pos hpre, ← hbehind, List.drop_left]
        rfl
      · have hnot : ¬pat <+: c :: s := fun hp => hpre (List.isPrefixOf_iff_prefix.mpr hp)
        obtain ⟨before, behind, hs, hreplace⟩ := ih ((List.infix_cons_iff.mp h).resolve_left hnot)
        refine ⟨c :: before, behind, by rw [hs]; rfl, fun replacement => ?_⟩
        rw [replaceFirst, if_neg hpre, hreplace]
        rfl

/-- `str::strip_prefix`. -/
def stripPrefix (s pre : List Char) : Option (List Char) :=
  if startsWith s pre then some (s.drop pre.length) else none

theorem stripPrefix_eq_some {s pre rest : List Char} : stripPrefix s pre = some rest ↔ s = pre ++ rest := by
  unfold stripPrefix startsWith
  constructor
  · intro h
    split at h
    · rename_i hpre
      obtain ⟨more, rfl⟩ := List.isPrefixOf_iff_prefix.mp hpre
      have hrest : more = rest := by simpa using h
      rw [hrest]
    · simp at h
  · rintro rfl
    simp

/-- What stands before and behind the first `c`: `str::find` and the two slices at it. -/
def splitAtChar (s : List Char) (c : Char) : Option (List Char × List Char) :=
  match s.span (· != c) with
  | (_, []) => none
  | (before, _ :: behind) => some (before, behind)

theorem splitAtChar_eq_some {s before behind : List Char} {c : Char} :
    splitAtChar s c = some (before, behind) ↔ s = before ++ c :: behind ∧ c ∉ before := by
  unfold splitAtChar
  rw [List.span_eq_takeWhile_dropWhile]
  constructor
  · intro h
    split at h
    · simp at h
    · rename_i before' x behind' hspan
      obtain ⟨hbefore, hbehind⟩ := Prod.mk.inj hspan
      obtain ⟨rfl, rfl⟩ : before' = before ∧ behind' = behind := by simpa using h
      have hall := List.all_takeWhile (p := (· != c)) (l := s)
      have hhead := List.head?_dropWhile_not (· != c) s
      have happend := List.takeWhile_append_dropWhile (p := (· != c)) (l := s)
      rw [hbehind] at hhead happend
      rw [hbefore] at hall happend
      obtain rfl : x = c := by simpa using hhead
      refine ⟨happend.symm, ?_⟩
      intro hmem
      simpa using List.all_eq_true.mp hall x hmem
  · rintro ⟨rfl, hnot⟩
    have hall : ∀ x ∈ before, (x != c) = true := by
      intro x hx
      simpa using fun heq : x = c => hnot (heq ▸ hx)
    rw [List.takeWhile_append_of_pos hall, List.dropWhile_append_of_pos hall]
    simp

/-- `str::split` at a character. -/
def split : List Char → Char → List (List Char)
  | [], _ => [[]]
  | x :: rest, c =>
      if x = c then [] :: split rest c
      else match split rest c with
        | piece :: pieces => (x :: piece) :: pieces
        | [] => [[x]]

theorem split_cons_ne {c x : Char} {s piece : List Char} {pieces : List (List Char)} (hx : x ≠ c)
    (h : split s c = piece :: pieces) : split (x :: s) c = (x :: piece) :: pieces := by
  rw [split, if_neg hx, h]

theorem exists_split (s : List Char) (c : Char) : ∃ piece pieces, split s c = piece :: pieces := by
  induction s with
  | nil => exact ⟨[], [], rfl⟩
  | cons x s ih =>
      obtain ⟨piece, pieces, h⟩ := ih
      by_cases hx : x = c
      · exact ⟨[], split s c, by rw [split, if_pos hx]⟩
      · exact ⟨x :: piece, pieces, split_cons_ne hx h⟩

theorem split_eq_splitOn (s : List Char) (c : Char) : split s c = s.splitOn c := by
  induction s with
  | nil => rfl
  | cons x s ih =>
      obtain ⟨piece, pieces, h⟩ := exists_split s c
      rw [List.splitOn_cons_eq_if_modifyHead, ← ih]
      by_cases hx : x = c
      · simp [split, hx]
      · rw [split_cons_ne hx h, if_neg (by simpa using hx), h, List.modifyHead_cons]

/-- A text is its pieces with the separator between them. -/
theorem split_append {c : Char} {s : List Char} : ∀ {piece : List Char} {pieces : List (List Char)},
    split s c = piece :: pieces → s = piece ++ pieces.flatMap (c :: ·) := by
  induction s with
  | nil =>
      intro piece pieces h
      cases h
      rfl
  | cons x s ih =>
      intro piece pieces h
      obtain ⟨piece', pieces', hs⟩ := exists_split s c
      by_cases hx : x = c
      · rw [split, if_pos hx, hs] at h
        obtain ⟨rfl, rfl⟩ := List.cons.inj h
        rw [hx, ih hs]
        rfl
      · rw [split_cons_ne hx hs] at h
        obtain ⟨rfl, rfl⟩ := List.cons.inj h
        rw [ih hs]
        rfl

theorem not_mem_of_mem_split {c : Char} {s : List Char} : ∀ piece ∈ split s c, c ∉ piece := by
  induction s with
  | nil => simp [split]
  | cons x s ih =>
      obtain ⟨piece', pieces', hs⟩ := exists_split s c
      intro piece hpiece
      by_cases hx : x = c
      · rw [split, if_pos hx] at hpiece
        obtain rfl | hpiece := List.mem_cons.mp hpiece
        · exact List.not_mem_nil
        · exact ih piece hpiece
      · rw [hs] at ih
        rw [split_cons_ne hx hs] at hpiece
        obtain rfl | hpiece := List.mem_cons.mp hpiece
        · have hnot := ih piece' (List.mem_cons_self ..)
          simp [hnot, Ne.symm hx]
        · exact ih piece (List.mem_cons_of_mem _ hpiece)

theorem mem_of_mem_split {c : Char} {s piece : List Char} (hpiece : piece ∈ split s c) : ∀ x ∈ piece, x ∈ s := by
  obtain ⟨piece', pieces, hs⟩ := exists_split s c
  rw [hs] at hpiece
  intro x hx
  rw [split_append hs, List.mem_append, List.mem_flatMap]
  obtain rfl | hpiece := List.mem_cons.mp hpiece
  · exact Or.inl hx
  · exact Or.inr ⟨piece, hpiece, List.mem_cons_of_mem _ hx⟩

/-- `str::split_inclusive` at a character: every piece but the last ends with it. -/
def splitInclusive : List Char → Char → List (List Char)
  | [], _ => []
  | x :: rest, c =>
      if x = c then [x] :: splitInclusive rest c
      else match splitInclusive rest c with
        | piece :: pieces => (x :: piece) :: pieces
        | [] => [[x]]

/-- `strip_suffix` of an LF, and of a CR before it. -/
def stripLineEnd (line : List Char) : List Char :=
  if line.getLast? = some '\n' then
    if line.dropLast.getLast? = some '\r' then line.dropLast.dropLast else line.dropLast
  else line

/-- `str::lines` -/
def lines (s : List Char) : List (List Char) := (splitInclusive s '\n').map stripLineEnd

/-- `str::trim_start_matches` and `str::trim_end_matches` of a character. -/
def trimStartMatches (s : List Char) (c : Char) : List Char := s.dropWhile (· == c)
def trimEndMatches (s : List Char) (c : Char) : List Char := (s.reverse.dropWhile (· == c)).reverse

/-- `str::eq_ignore_ascii_case`. -/
def eqIgnoreAsciiCase (s t : String) : Bool :=
  s.toList.map Char.toLower = t.toList.map Char.toLower

/-- The value of a string of decimal digits. -/
def parseDigits : Nat → List Char → Option Nat
  | acc, [] => some acc
  | acc, c :: rest => if c.isDigit then parseDigits (acc * 10 + (c.toNat - 48)) rest else none

/-- `str::parse::<usize>` on a 64-bit target: an optional plus sign, digits, and no overflow. -/
def parseUsize (s : List Char) : Option Nat :=
  let ds := match s with
    | '+' :: ds => ds
    | ds => ds
  if ds.isEmpty then none
  else (parseDigits 0 ds).filter (· < 2 ^ 64)

example : fromUtf8Lossy [0x48, 0xC3, 0xA9, 0xE2, 0x82, 0x21] = "Hé\uFFFD!" := by decide

end RustStd
