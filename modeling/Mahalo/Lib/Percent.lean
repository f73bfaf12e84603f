/-
Percent-encoding.

Every byte that is not unreserved is written as `%` and its two hexadecimal digits, so
that the text is made of unreserved characters, `%` and nothing else.  A decoder reads such
escapes, and takes any other character for its own bytes; one that `Reads` in that way gives
back the bytes of an encoding, whatever stands behind it.
-/
import Mahalo.Lib.Utf8

namespace Percent

open RustStd

/-- The letters, the figures, and `-`, `.`, `_` and `~`. -/
def isUnreserved (b : UInt8) : Bool :=
  (65 ≤ b && b ≤ 90) || (97 ≤ b && b ≤ 122) || (48 ≤ b && b ≤ 57) ||
    b == 45 || b == 46 || b == 95 || b == 126

def hexDigit (n : Nat) : Char := Char.ofNat (if n < 10 then 48 + n else 55 + n)

def encodeByte (b : UInt8) : List Char :=
  if isUnreserved b then [Char.ofNat b.toNat]
  else ['%', hexDigit (b.toNat / 16), hexDigit (b.toNat % 16)]

def encode (bytes : List UInt8) : List Char := bytes.flatMap encodeByte

/-- The value of a digit, in either case. -/
def hexValue (c : Char) : Option Nat :=
  if '0' ≤ c ∧ c ≤ '9' then some (c.toNat - 48)
  else if 'A' ≤ c ∧ c ≤ 'F' then some (c.toNat - 55)
  else if 'a' ≤ c ∧ c ≤ 'f' then some (c.toNat - 87)
  else none

/-- The escapes of a text are read, and its other characters are taken as they are. -/
structure Reads (decode : List Char → List UInt8) : Prop where
  nil : decode [] = []
  plain : ∀ c rest, c ≠ '%' → decode (c :: rest) = encodeChar c ++ decode rest
  escape : ∀ c₁ c₂ n₁ n₂ rest, hexValue c₁ = some n₁ → hexValue c₂ = some n₂ →
    decode ('%' :: c₁ :: c₂ :: rest) = UInt8.ofNat (16 * n₁ + n₂) :: decode rest

/-- What a decoder makes of a text; a `%` that begins no escape stands for itself. -/
def decode : List Char → List UInt8
  | [] => []
  | '%' :: c₁ :: c₂ :: rest =>
      match hexValue c₁, hexValue c₂ with
      | some n₁, some n₂ => UInt8.ofNat (16 * n₁ + n₂) :: decode rest
      | _, _ => encodeChar '%' ++ decode (c₁ :: c₂ :: rest)
  | c :: rest => encodeChar c ++ decode rest

theorem reads_decode : Reads decode where
  nil := rfl
  plain := by
    intro c rest hc
    rw [decode]
    intro c₁ c₂ rest' heq _
    exact hc heq
  escape := by
    intro c₁ c₂ n₁ n₂ rest h₁ h₂
    rw [decode, h₁, h₂]

theorem hexValue_hexDigit : ∀ n < 16, hexValue (hexDigit n) = some n := by decide

theorem unreserved_ascii {b : UInt8} (h : isUnreserved b = true) : b.toNat < 128 := by
  simp only [isUnreserved, Bool.or_eq_true, Bool.and_eq_true, decide_eq_true_eq, beq_iff_eq,
    UInt8.le_iff_toNat_le, ← UInt8.toNat_inj, UInt8.toNat_ofNat] at h
  omega

theorem byteChar_toNat (b : UInt8) : (Char.ofNat b.toNat).toNat = b.toNat := by
  have hlt := b.toNat_lt
  exact char_toNat (Or.inl (by omega))

/-- An unreserved character is one byte, and no `%`. -/
theorem unreserved_char {b : UInt8} (h : isUnreserved b = true) :
    encodeChar (Char.ofNat b.toNat) = [b] ∧ Char.ofNat b.toNat ≠ '%' := by
  have hascii := unreserved_ascii h
  have hchar := byteChar_toNat b
  refine ⟨?_, ?_⟩
  · rw [encodeChar_ascii (by rw [hchar]; exact hascii), hchar, UInt8.ofNat_toNat]
  · intro hpercent
    rw [hpercent] at hchar
    have hb : b = 37 := UInt8.toNat_inj.mp hchar.symm
    rw [hb] at h
    exact absurd h (by decide)

variable {decode : List Char → List UInt8}

theorem Reads.encodeByte (h : Reads decode) (b : UInt8) (rest : List Char) :
    decode (encodeByte b ++ rest) = b :: decode rest := by
  unfold Percent.encodeByte
  by_cases hb : isUnreserved b = true
  · obtain ⟨hone, hpercent⟩ := unreserved_char hb
    rw [if_pos hb, List.singleton_append, h.plain _ _ hpercent, hone]
    rfl
  · rw [if_neg hb]
    have hlt := b.toNat_lt
    have hread := h.escape _ _ _ _ rest (hexValue_hexDigit (b.toNat / 16) (by omega))
      (hexValue_hexDigit (b.toNat % 16) (by omega))
    rw [Nat.div_add_mod, UInt8.ofNat_toNat] at hread
    exact hread

/-- **Decoding undoes encoding**, whatever stands behind. -/
theorem Reads.encode_append (h : Reads decode) (bytes : List UInt8) (rest : List Char) :
    decode (encode bytes ++ rest) = bytes ++ decode rest := by
  induction bytes with
  | nil => rfl
  | cons b more ih =>
    rw [encode, List.flatMap_cons, List.append_assoc, h.encodeByte]
    exact congrArg (b :: ·) ih

theorem Reads.encode (h : Reads decode) (bytes : List UInt8) : decode (encode bytes) = bytes := by
  have hread := h.encode_append bytes []
  rwa [List.append_nil, h.nil, List.append_nil] at hread

/-- An encoding is made of unreserved characters and `%`. -/
theorem encode_plain (bytes : List UInt8) :
    ∀ c ∈ encode bytes, c = '%' ∨ isUnreserved (UInt8.ofNat c.toNat) = true ∧ c.toNat < 128 := by
  have hhex : ∀ n < 16, isUnreserved (UInt8.ofNat (hexDigit n).toNat) = true ∧ (hexDigit n).toNat < 128 := by
    decide
  intro c hc
  obtain ⟨b, _, hb⟩ := List.mem_flatMap.mp hc
  have hlt := b.toNat_lt
  unfold Percent.encodeByte at hb
  split at hb
  · rename_i hunreserved
    obtain rfl : c = Char.ofNat b.toNat := by simpa using hb
    rw [byteChar_toNat, UInt8.ofNat_toNat]
    exact .inr ⟨hunreserved, unreserved_ascii hunreserved⟩
  · simp only [List.mem_cons, List.not_mem_nil, or_false] at hb
    rcases hb with rfl | rfl | rfl
    · exact .inl rfl
    · exact .inr (hhex _ (by omega))
    · exact .inr (hhex _ (by omega))

theorem reserved_not_mem {c : Char} (h : c ≠ '%' ∧ isUnreserved (UInt8.ofNat c.toNat) = false)
    (bytes : List UInt8) : c ∉ encode bytes := by
  intro hc
  rcases encode_plain bytes c hc with rfl | ⟨hunreserved, _⟩
  · exact h.1 rfl
  · rw [h.2] at hunreserved
    exact absurd hunreserved Bool.false_ne_true

theorem encode_injective : Function.Injective encode :=
  Function.LeftInverse.injective reads_decode.encode

/-- Bytes that are all unreserved are their own encoding. -/
theorem encode_unreserved {bytes : List UInt8} (h : ∀ b ∈ bytes, isUnreserved b = true) :
    encode bytes = bytes.map fun b => Char.ofNat b.toNat := by
  induction bytes with
  | nil => rfl
  | cons b more ih =>
    have hmore := ih fun x hx => h x (List.mem_cons_of_mem _ hx)
    rw [encode, List.flatMap_cons, encodeByte, if_pos (h b (List.mem_cons_self ..))]
    exact congrArg (Char.ofNat b.toNat :: ·) hmore

theorem encode_ascii (bytes : List UInt8) : ∀ c ∈ encode bytes, c.toNat < 128 := by
  intro c hc
  rcases encode_plain bytes c hc with rfl | ⟨_, h⟩
  · decide
  · exact h

theorem length_encodeByte (b : UInt8) : (encodeByte b).length = if isUnreserved b then 1 else 3 := by
  unfold Percent.encodeByte
  split <;> rfl

theorem length_le_encode (bytes : List UInt8) : bytes.length ≤ (encode bytes).length := by
  induction bytes with
  | nil => simp
  | cons b more ih =>
    have hone : 1 ≤ (Percent.encodeByte b).length := by
      rw [length_encodeByte]
      split <;> omega
    rw [encode, List.flatMap_cons, List.length_append, List.length_cons, Nat.add_comm]
    exact Nat.add_le_add hone ih

/-- An encoding spells the bytes themselves exactly if none of them is escaped. -/
theorem asBytes_encode_iff (bytes : List UInt8) : asBytes (String.ofList (encode bytes)) = bytes ↔
    ∀ b ∈ bytes, isUnreserved b = true := by
  rw [asBytes_ascii (by simpa using encode_ascii bytes), String.toList_ofList]
  constructor
  · intro h b hb
    have hlength : (encode bytes).length = bytes.length := by simpa using congrArg List.length h
    by_contra hreserved
    obtain ⟨before, behind, rfl⟩ := List.append_of_mem hb
    have hbefore := length_le_encode before
    have hbehind := length_le_encode behind
    have hthree : (Percent.encodeByte b).length = 3 := by rw [length_encodeByte, if_neg hreserved]
    simp only [encode, List.flatMap_append, List.flatMap_cons, List.length_append, List.length_cons]
      at hlength hbefore hbehind
    omega
  · intro h
    rw [encode_unreserved h, List.map_map]
    refine (List.map_congr_left fun b _ => ?_).trans (List.map_id bytes)
    show UInt8.ofNat (Char.ofNat b.toNat).toNat = b
    rw [byteChar_toNat, UInt8.ofNat_toNat]

example : String.ofList (encode (asBytes "a b/é")) = "a%20b%2F%C3%A9" := by decide

end Percent
