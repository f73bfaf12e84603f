/-
Base64.

Three bytes are four digits of six bits; one or two bytes at the end are filled up with
zero bits, and their missing digits are `=`.  A text is decoded only if it is the encoding
of what is read in it.
-/
import Mathlib.Tactic.Basic
import Mathlib.Data.List.Basic

namespace Base64

def pad : UInt8 := 61

/-- The digits are the letters, the figures, `+` and `/`. -/
def digit (n : Nat) : UInt8 :=
  if n < 26 then UInt8.ofNat (65 + n)
  else if n < 52 then UInt8.ofNat (71 + n)
  else if n < 62 then UInt8.ofNat (n - 4)
  else if n = 62 then 43
  else 47

def encode : List UInt8 → List UInt8
  | [] => []
  | [a] => [digit (a.toNat / 4), digit (a.toNat % 4 * 16), pad, pad]
  | [a, b] =>
      [digit (a.toNat / 4), digit (a.toNat % 4 * 16 + b.toNat / 16), digit (b.toNat % 16 * 4), pad]
  | a :: b :: c :: rest =>
      digit (a.toNat / 4) :: digit (a.toNat % 4 * 16 + b.toNat / 16) ::
        digit (b.toNat % 16 * 4 + c.toNat / 64) :: digit (c.toNat % 64) :: encode rest

/-- The bytes of an encoding. -/
def alphabet : List UInt8 := pad :: (List.range 64).map digit

theorem digit_mem (n : Nat) : digit n ∈ alphabet := by
  by_cases h : n < 64
  · exact List.mem_cons_of_mem _ (List.mem_map_of_mem (List.mem_range.mpr h))
  · have hlast : digit n = digit 63 := by
      unfold digit
      rw [if_neg (by omega), if_neg (by omega), if_neg (by omega), if_neg (by omega)]
      rfl
    rw [hlast]
    exact List.mem_cons_of_mem _ (List.mem_map_of_mem (List.mem_range.mpr (by omega)))

theorem pad_mem : pad ∈ alphabet := List.mem_cons_self ..

theorem encode_alphabet (bytes : List UInt8) : ∀ b ∈ encode bytes, b ∈ alphabet := by
  induction bytes using encode.induct with
  | case1 => simp [encode]
  | case2 a => simp [encode, digit_mem, pad_mem]
  | case3 a b => simp [encode, digit_mem, pad_mem]
  | case4 a b c rest ih => simpa [encode, digit_mem] using ih

/-! ### Decoding -/

def value (d : UInt8) : Nat := ((List.range 64).find? fun n => digit n == d).getD 0

/-- The bytes that a text stands for, if it is an encoding. -/
def read : List UInt8 → List UInt8
  | a :: b :: c :: d :: rest =>
      let first := UInt8.ofNat (value a * 4 + value b / 16)
      let second := UInt8.ofNat (value b % 16 * 16 + value c / 4)
      if c = pad then [first]
      else if d = pad then [first, second]
      else first :: second :: UInt8.ofNat (value c % 4 * 64 + value d) :: read rest
  | _ => []

def decode (text : List UInt8) : Option (List UInt8) :=
  if encode (read text) = text then some (read text) else none

/-- Whatever is not the encoding of some bytes is refused. -/
def Strict (decode : List UInt8 → Option (List UInt8)) : Prop :=
  ∀ text bytes, decode text = some bytes ↔ text = encode bytes

theorem value_digit : ∀ n < 64, value (digit n) = n := by decide +kernel

theorem digit_ne_pad : ∀ n < 64, digit n ≠ pad := by decide +kernel

theorem ofNat_eq {b : UInt8} {n : Nat} (h : n = b.toNat) : UInt8.ofNat n = b := by
  rw [h, UInt8.ofNat_toNat]

theorem read_encode (bytes : List UInt8) : read (encode bytes) = bytes := by
  induction bytes using encode.induct with
  | case1 => rfl
  | case2 a =>
    have ha := a.toNat_lt
    rw [encode, read, if_pos rfl, value_digit _ (by omega), value_digit _ (by omega)]
    exact congrArg (fun x => [x]) (ofNat_eq (by omega))
  | case3 a b =>
    have ha := a.toNat_lt
    have hb := b.toNat_lt
    rw [encode, read, if_neg (digit_ne_pad _ (by omega)), if_pos rfl, value_digit _ (by omega),
      value_digit _ (by omega), value_digit _ (by omega)]
    exact congrArg₂ (fun x y => [x, y]) (ofNat_eq (by omega)) (ofNat_eq (by omega))
  | case4 a b c rest ih =>
    have ha := a.toNat_lt
    have hb := b.toNat_lt
    have hc := c.toNat_lt
    rw [encode, read, if_neg (digit_ne_pad _ (by omega)), if_neg (digit_ne_pad _ (by omega)),
      value_digit _ (by omega), value_digit _ (by omega), value_digit _ (by omega),
      value_digit _ (by omega), ih]
    have hfirst : UInt8.ofNat (a.toNat / 4 * 4 + (a.toNat % 4 * 16 + b.toNat / 16) / 16) = a :=
      ofNat_eq (by omega)
    have hsecond : UInt8.ofNat ((a.toNat % 4 * 16 + b.toNat / 16) % 16 * 16
        + (b.toNat % 16 * 4 + c.toNat / 64) / 4) = b := ofNat_eq (by omega)
    have hthird : UInt8.ofNat ((b.toNat % 16 * 4 + c.toNat / 64) % 4 * 64 + c.toNat % 64) = c :=
      ofNat_eq (by omega)
    rw [hfirst, hsecond, hthird]

theorem strict_decode : Strict decode := by
  intro text bytes
  unfold decode
  constructor
  · intro h
    split at h
    · rename_i hencoded
      rw [← Option.some.inj h, hencoded]
    · exact absurd h (by simp)
  · rintro rfl
    rw [read_encode, if_pos rfl]

/-- Then no text is the encoding of two. -/
theorem Strict.injective {decode : List UInt8 → Option (List UInt8)} (h : Strict decode)
    {bytes bytes' : List UInt8} (hsame : encode bytes = encode bytes') : bytes = bytes' := by
  have hdecode := (h (encode bytes') bytes).mpr hsame.symm
  rw [(h _ bytes').mpr rfl] at hdecode
  exact (Option.some.inj hdecode).symm

example : encode [77, 97, 110, 77] = [84, 87, 70, 117, 84, 81, 61, 61] := by decide

end Base64
