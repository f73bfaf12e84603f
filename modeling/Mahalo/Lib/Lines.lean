/-
Text protocols: lines that end in CRLF, and blocks of `name: value` fields.

A reader takes the fields of a block one line at a time, up to the blank line.
What a writer puts down is read back, whatever follows it, as long as names and
values hold no CR or LF and names no colon.  A list of messages, each of which is
read back with anything behind it, is read back as a whole; that is
`readEach_writeEach`, and it does not care what a message is.
-/
import Mathlib.Data.List.Basic

namespace Lines

abbrev Bytes := List UInt8

def cr : UInt8 := 13
def lf : UInt8 := 10
def colon : UInt8 := 58
def space : UInt8 := 32

def crlf : Bytes := [cr, lf]

/-! ### Lines -/

/-- The line in front, without its CRLF, and what follows it. -/
def takeLine : Bytes → Option (Bytes × Bytes)
  | [] => none
  | b :: rest =>
      if b = cr ∧ rest.head? = some lf then some ([], rest.tail)
      else (takeLine rest).map fun (line, behind) => (b :: line, behind)

/-- A text that fits on one line. -/
def Unbroken (line : Bytes) : Prop := ∀ b ∈ line, b ≠ cr ∧ b ≠ lf

instance : DecidablePred Unbroken := fun line =>
  decidable_of_iff ((line.all fun b => b != cr && b != lf) = true) (by simp [Unbroken])

theorem unbroken_append {s t : Bytes} : Unbroken (s ++ t) ↔ Unbroken s ∧ Unbroken t := by
  unfold Unbroken
  exact List.forall_mem_append

theorem unbroken_cons {b : UInt8} {t : Bytes} :
    Unbroken (b :: t) ↔ (b ≠ cr ∧ b ≠ lf) ∧ Unbroken t := by
  unfold Unbroken
  exact List.forall_mem_cons

theorem takeLine_line {line : Bytes} (h : Unbroken line) (rest : Bytes) :
    takeLine (line ++ (crlf ++ rest)) = some (line, rest) := by
  induction line with
  | nil => exact if_pos ⟨rfl, rfl⟩
  | cons b line ih =>
      obtain ⟨hb, hline⟩ := unbroken_cons.mp h
      rw [List.cons_append, takeLine, if_neg fun hc => hb.1 hc.1, ih hline]
      rfl

/-! ### Fields -/

/-- A name and a value. -/
abbrev Field := Bytes × Bytes

def writeField (f : Field) : Bytes := f.1 ++ [colon, space] ++ f.2 ++ crlf

/-- The name before the first colon, and the value behind it and one space. -/
def splitField (line : Bytes) : Option Field :=
  match line.dropWhile (· != colon) with
  | _ :: b :: value => if b = space then some (line.takeWhile (· != colon), value) else none
  | _ => none

/-- A field that can be told from the blank line and from its neighbours. -/
structure Field.Writable (f : Field) : Prop where
  name : Unbroken f.1
  noColon : colon ∉ f.1
  value : Unbroken f.2

theorem splitField_field {name value : Bytes} (h : colon ∉ name) :
    splitField (name ++ colon :: space :: value) = some (name, value) := by
  have hname : ∀ b ∈ name, (b != colon) = true := by
    intro b hb
    rw [bne_iff_ne]
    rintro rfl
    exact h hb
  unfold splitField
  rw [List.dropWhile_append_of_pos hname, List.takeWhile_append_of_pos hname]
  simp

/-- The fields up to the blank line, and what follows that; at most `fuel` lines. -/
def takeFieldsFuel : Nat → Bytes → Option (List Field × Bytes)
  | 0, _ => none
  | fuel + 1, bs =>
      (takeLine bs).bind fun (line, rest) =>
        if line.isEmpty then some ([], rest)
        else (splitField line).bind fun f =>
          (takeFieldsFuel fuel rest).map fun (fields, behind) => (f :: fields, behind)

/-- Every line takes two elements, so there are fewer lines than elements. -/
def takeFields (bs : Bytes) : Option (List Field × Bytes) := takeFieldsFuel bs.length bs

theorem takeFieldsFuel_writeField {f : Field} (hf : f.Writable) (fuel : Nat) (rest : Bytes) :
    takeFieldsFuel (fuel + 1) (writeField f ++ rest) =
      (takeFieldsFuel fuel rest).map fun (fields, behind) => (f :: fields, behind) := by
  obtain ⟨name, value⟩ := f
  have hline : Unbroken (name ++ colon :: space :: value) := by
    refine unbroken_append.mpr ⟨hf.name, unbroken_cons.mpr ⟨by decide, ?_⟩⟩
    exact unbroken_cons.mpr ⟨by decide, hf.value⟩
  have hshape : writeField (name, value) ++ rest =
      (name ++ colon :: space :: value) ++ (crlf ++ rest) := by
    simp [writeField]
  have hne : (name ++ colon :: space :: value).isEmpty = false := by simp
  rw [hshape, takeFieldsFuel, takeLine_line hline]
  simp only [Option.bind_some, hne, Bool.false_eq_true, if_false, splitField_field hf.noColon]

theorem takeFieldsFuel_fields :
    ∀ (fields : List Field), (∀ f ∈ fields, f.Writable) → ∀ (fuel : Nat) (rest : Bytes),
      fields.length < fuel →
      takeFieldsFuel fuel (fields.flatMap writeField ++ (crlf ++ rest)) = some (fields, rest) := by
  intro fields
  induction fields with
  | nil =>
      intro _ fuel rest hfuel
      obtain ⟨fuel, rfl⟩ : ∃ k, fuel = k + 1 := ⟨fuel - 1, by omega⟩
      have hblank : takeLine (crlf ++ rest) = some ([], rest) := if_pos ⟨rfl, rfl⟩
      rw [List.flatMap_nil, List.nil_append, takeFieldsFuel, hblank]
      rfl
  | cons f fields ih =>
      intro hall fuel rest hfuel
      obtain ⟨fuel, rfl⟩ : ∃ k, fuel = k + 1 := ⟨fuel - 1, by omega⟩
      rw [List.length_cons] at hfuel
      rw [List.flatMap_cons, List.append_assoc, takeFieldsFuel_writeField (hall f (by simp)),
        ih (fun g hg => hall g (by simp [hg])) fuel rest (by omega)]
      rfl

theorem length_le_writeFields (fields : List Field) :
    fields.length ≤ (fields.flatMap writeField).length := by
  induction fields with
  | nil => simp
  | cons f fields ih =>
      rw [List.flatMap_cons, List.length_append, List.length_cons]
      have : 1 ≤ (writeField f).length := by
        simp only [writeField, crlf, List.length_append, List.length_cons]
        omega
      omega

/-- **A block of fields is read back, whatever follows it.** -/
theorem takeFields_fields {fields : List Field} (h : ∀ f ∈ fields, f.Writable) (rest : Bytes) :
    takeFields (fields.flatMap writeField ++ (crlf ++ rest)) = some (fields, rest) := by
  refine takeFieldsFuel_fields fields h _ rest ?_
  have := length_le_writeFields fields
  simp only [List.length_append, crlf, List.length_cons]
  omega

/-! ### Decimal numbers -/

def isDigit (b : UInt8) : Bool := 48 ≤ b && b ≤ 57

/-- The number that digits write. -/
def digitsValue (digits : Bytes) : Nat := digits.foldl (fun n b => 10 * n + (b.toNat - 48)) 0

/-- The number a text of digits stands for. -/
def readDecimal (text : Bytes) : Option Nat :=
  if text.isEmpty || !text.all isDigit then none else some (digitsValue text)

/-- The digits of a number. -/
def writeDecimal (n : Nat) : Bytes := (Nat.toDigits 10 n).map fun c => UInt8.ofNat c.toNat

theorem digit_byte {c : Char} (h : c.isDigit = true) :
    isDigit (UInt8.ofNat c.toNat) = true ∧ (UInt8.ofNat c.toNat).toNat = c.toNat := by
  have hbounds : 48 ≤ c.toNat ∧ c.toNat ≤ 57 := by
    simpa [Char.isDigit, UInt32.le_iff_toNat_le] using h
  have hnat : (UInt8.ofNat c.toNat).toNat = c.toNat := by
    rw [UInt8.toNat_ofNat']
    exact Nat.mod_eq_of_lt (by omega)
  refine ⟨?_, hnat⟩
  simp only [isDigit, Bool.and_eq_true, decide_eq_true_eq, UInt8.le_iff_toNat_le, hnat]
  exact hbounds

theorem digitsValue_map (cs : List Char) (h : ∀ c ∈ cs, c.isDigit = true) :
    digitsValue (cs.map fun c => UInt8.ofNat c.toNat) = Nat.ofDigitChars 10 cs 0 := by
  unfold digitsValue
  rw [List.foldl_map, Nat.ofDigitChars_eq_foldl]
  refine List.foldl_ext _ _ 0 ?_
  intro n c hc
  rw [(digit_byte (h c hc)).2]
  rfl

theorem writeDecimal_digits (n : Nat) : ∀ b ∈ writeDecimal n, isDigit b = true := by
  intro b hb
  obtain ⟨c, hc, rfl⟩ := List.mem_map.mp hb
  exact (digit_byte (Nat.isDigit_of_mem_toDigits (by decide) (by decide) hc)).1

/-- **A number is read back from its digits.** -/
theorem readDecimal_writeDecimal (n : Nat) : readDecimal (writeDecimal n) = some n := by
  have hdigits : ∀ c ∈ Nat.toDigits 10 n, c.isDigit = true := fun c hc =>
    Nat.isDigit_of_mem_toDigits (by decide) (by decide) hc
  have hne : (writeDecimal n).isEmpty = false := by
    simp [writeDecimal, Nat.toDigits_ne_nil]
  have hall : (writeDecimal n).all isDigit = true := List.all_eq_true.mpr (writeDecimal_digits n)
  unfold readDecimal
  rw [hne, hall]
  simp only [Bool.not_true, Bool.or_self, Bool.false_eq_true, if_false]
  rw [writeDecimal, digitsValue_map _ hdigits, Nat.ofDigitChars_ten_toDigits]

theorem writeDecimal_unbroken (n : Nat) : Unbroken (writeDecimal n) := by
  intro b hb
  have hdigit := writeDecimal_digits n b hb
  constructor
  · rintro rfl
    exact absurd hdigit (by decide)
  · rintro rfl
    exact absurd hdigit (by decide)

/-! ### Streams of messages -/

section

variable {K X : Type*}

/-- Read one message for each key, and the stream to its end. -/
def readEach (read : K → Bytes → Option (X × Bytes)) : List K → Bytes → Option (List X)
  | [], bs => if bs.isEmpty then some [] else none
  | k :: ks, bs => (read k bs).bind fun (x, rest) => (readEach read ks rest).map (x :: ·)

/--
**A stream of messages decodes uniquely.**  It is enough that each of them is read
back with anything behind it.
-/
theorem readEach_writeEach {M : Type*} (read : K → Bytes → Option (X × Bytes)) (key : M → K)
    (write : M → Bytes) (meaning : M → X) (messages : List M)
    (h : ∀ m ∈ messages, ∀ rest, read (key m) (write m ++ rest) = some (meaning m, rest)) :
    readEach read (messages.map key) (messages.flatMap write) = some (messages.map meaning) := by
  induction messages with
  | nil => rfl
  | cons m ms ih =>
      rw [List.map_cons, List.flatMap_cons, readEach, h m (by simp)]
      simp only [Option.bind_some, ih fun m' hm' => h m' (by simp [hm']), Option.map_some,
        List.map_cons]

/-- Read one message for each key, and leave what follows them. -/
def takeEach (read : K → Bytes → Option (X × Bytes)) : List K → Bytes → Option (List X × Bytes)
  | [], bs => some ([], bs)
  | k :: ks, bs =>
      (read k bs).bind fun (x, rest) => (takeEach read ks rest).map fun (xs, behind) => (x :: xs, behind)

/-- Messages in front of a stream are taken off it, whatever follows them. -/
theorem takeEach_writeEach {M : Type*} (read : K → Bytes → Option (X × Bytes)) (key : M → K)
    (write : M → Bytes) (meaning : M → X) (messages : List M)
    (h : ∀ m ∈ messages, ∀ rest, read (key m) (write m ++ rest) = some (meaning m, rest)) (behind : Bytes) :
    takeEach read (messages.map key) (messages.flatMap write ++ behind) =
      some (messages.map meaning, behind) := by
  induction messages with
  | nil => rfl
  | cons m ms ih =>
      rw [List.map_cons, List.flatMap_cons, List.append_assoc, takeEach, h m (by simp)]
      simp only [Option.bind_some, ih fun m' hm' => h m' (by simp [hm']), Option.map_some,
        List.map_cons]

end

end Lines
