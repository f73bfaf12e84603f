/-
UTF-8, there and back.

What a character is encoded to is decoded to that character, and what is decoded to a
character is its encoding: the forms that are too long, the surrogates and what lies
behind the last character were cut out of the decoder.  So a text is read back from its
bytes, and bytes that are a text are the bytes of that text.
-/
import Mahalo.Lib.RustStd

namespace RustStd

/-! ### The decoder's tests, on numbers -/

theorem utf8Width_toNat (b : UInt8) : utf8Width b =
    if b.toNat < 128 then 1
    else if 194 ≤ b.toNat ∧ b.toNat ≤ 223 then 2
    else if 224 ≤ b.toNat ∧ b.toNat ≤ 239 then 3
    else if 240 ≤ b.toNat ∧ b.toNat ≤ 244 then 4
    else 0 := by
  unfold utf8Width
  simp only [UInt8.lt_iff_toNat_lt, UInt8.le_iff_toNat_le]
  rfl

theorem isCont_iff {b : UInt8} : isCont b = true ↔ 128 ≤ b.toNat ∧ b.toNat ≤ 191 := by
  unfold isCont
  simp only [UInt8.le_iff_toNat_le, Bool.decide_and, Bool.and_eq_true, decide_eq_true_eq]
  exact Iff.rfl

/-- Every continuation byte will do as the second, except behind these four. -/
theorem secondOk_iff {b0 b1 : UInt8} : secondOk b0 b1 = true ↔ 128 ≤ b1.toNat ∧ b1.toNat ≤ 191 ∧
    (b0.toNat = 224 → 160 ≤ b1.toNat) ∧ (b0.toNat = 237 → b1.toNat ≤ 159) ∧
      (b0.toNat = 240 → 144 ≤ b1.toNat) ∧ (b0.toNat = 244 → b1.toNat ≤ 143) := by
  have hcont := @isCont_iff b1
  unfold secondOk
  simp only [← UInt8.toNat_inj, UInt8.le_iff_toNat_le, UInt8.reduceToNat]
  split
  · simp only [Bool.decide_and, Bool.and_eq_true, decide_eq_true_eq]
    omega
  · split
    · simp only [Bool.decide_and, Bool.and_eq_true, decide_eq_true_eq]
      omega
    · split
      · simp only [Bool.decide_and, Bool.and_eq_true, decide_eq_true_eq]
        omega
      · split
        · simp only [Bool.decide_and, Bool.and_eq_true, decide_eq_true_eq]
          omega
        · rw [hcont]
          omega

theorem char_toNat {n : Nat} (h : n.isValidChar) : (Char.ofNat n).toNat = n := by
  unfold Char.ofNat
  rw [dif_pos h]
  show (UInt32.ofNatLT n _).toNat = n
  exact UInt32.toNat_ofNatLT ..

theorem byte_toNat {n : Nat} (h : n < 256) : (UInt8.ofNat n).toNat = n := by
  rw [UInt8.toNat_ofNat']
  exact Nat.mod_eq_of_lt h

theorem byte_eq {b : UInt8} {n : Nat} (h : b.toNat = n) : UInt8.ofNat n = b := by
  rw [← h, UInt8.ofNat_toNat]

/-! ### One character -/

section

variable {b0 b1 b2 b3 : UInt8} {rest : List UInt8}

theorem decodeOne_one (h : utf8Width b0 = 1) : decodeOne b0 rest = (some (Char.ofNat b0.toNat), 1) := by
  unfold decodeOne
  rw [h]
  rfl

theorem decodeOne_two (h : utf8Width b0 = 2) (h1 : secondOk b0 b1 = true) :
    decodeOne b0 (b1 :: rest) = (some (Char.ofNat (b0.toNat % 32 * 64 + tail6 b1)), 2) := by
  unfold decodeOne
  rw [h]
  simp [h1]

theorem decodeOne_three (h : utf8Width b0 = 3) (h1 : secondOk b0 b1 = true) (h2 : isCont b2 = true) :
    decodeOne b0 (b1 :: b2 :: rest) =
      (some (Char.ofNat ((b0.toNat % 16 * 64 + tail6 b1) * 64 + tail6 b2)), 3) := by
  unfold decodeOne
  rw [h]
  simp [h1, h2]

theorem decodeOne_four (h : utf8Width b0 = 4) (h1 : secondOk b0 b1 = true) (h2 : isCont b2 = true)
    (h3 : isCont b3 = true) :
    decodeOne b0 (b1 :: b2 :: b3 :: rest) =
      (some (Char.ofNat (((b0.toNat % 8 * 64 + tail6 b1) * 64 + tail6 b2) * 64 + tail6 b3)), 4) := by
  unfold decodeOne
  rw [h]
  simp [h1, h2, h3]

end

/-- **A character is decoded from its bytes**, whatever follows them. -/
theorem decodeOne_encodeChar (c : Char) (rest : List UInt8) :
    ∃ b tail, encodeChar c = b :: tail ∧ decodeOne b (tail ++ rest) = (some c, tail.length + 1) := by
  have hvalid : c.toNat < 55296 ∨ 57343 < c.toNat ∧ c.toNat < 1114112 := c.valid
  have hchar : Char.ofNat c.toNat = c := Char.ofNat_toNat c
  unfold encodeChar
  generalize c.toNat = n at hvalid hchar
  dsimp only
  by_cases h1 : n < 0x80
  · rw [if_pos h1]
    have hb := byte_toNat (n := n) (by omega)
    refine ⟨_, [], rfl, ?_⟩
    rw [decodeOne_one (by rw [utf8Width_toNat, hb, if_pos h1]), hb, hchar]
    rfl
  rw [if_neg h1]
  by_cases h2 : n < 0x800
  · rw [if_pos h2]
    have hb0 := byte_toNat (n := 0xC0 + n / 64) (by omega)
    have hb1 := byte_toNat (n := 0x80 + n % 64) (by omega)
    refine ⟨_, [_], rfl, ?_⟩
    rw [List.singleton_append, decodeOne_two, tail6, hb0, hb1]
    · rw [show (0xC0 + n / 64) % 32 * 64 + (0x80 + n % 64) % 64 = n by omega, hchar]
      rfl
    · rw [utf8Width_toNat, hb0, if_neg (by omega), if_pos (by omega)]
    · rw [secondOk_iff, hb0, hb1]
      omega
  rw [if_neg h2]
  by_cases h3 : n < 0x10000
  · rw [if_pos h3]
    have hb0 := byte_toNat (n := 0xE0 + n / 4096) (by omega)
    have hb1 := byte_toNat (n := 0x80 + n / 64 % 64) (by omega)
    have hb2 := byte_toNat (n := 0x80 + n % 64) (by omega)
    refine ⟨_, [_, _], rfl, ?_⟩
    rw [List.cons_append, List.singleton_append, decodeOne_three, tail6, tail6, hb0, hb1, hb2]
    · rw [show ((0xE0 + n / 4096) % 16 * 64 + (0x80 + n / 64 % 64) % 64) * 64 + (0x80 + n % 64) % 64 = n
        by omega, hchar]
      rfl
    · rw [utf8Width_toNat, hb0, if_neg (by omega), if_neg (by omega), if_pos (by omega)]
    · rw [secondOk_iff, hb0, hb1]
      omega
    · rw [isCont_iff, hb2]
      omega
  · rw [if_neg h3]
    have hb0 := byte_toNat (n := 0xF0 + n / 262144) (by omega)
    have hb1 := byte_toNat (n := 0x80 + n / 4096 % 64) (by omega)
    have hb2 := byte_toNat (n := 0x80 + n / 64 % 64) (by omega)
    have hb3 := byte_toNat (n := 0x80 + n % 64) (by omega)
    refine ⟨_, [_, _, _], rfl, ?_⟩
    rw [List.cons_append, List.cons_append, List.singleton_append, decodeOne_four, tail6, tail6, tail6,
      hb0, hb1, hb2, hb3]
    · rw [show (((0xF0 + n / 262144) % 8 * 64 + (0x80 + n / 4096 % 64) % 64) * 64 +
        (0x80 + n / 64 % 64) % 64) * 64 + (0x80 + n % 64) % 64 = n by omega, hchar]
      rfl
    · rw [utf8Width_toNat, hb0, if_neg (by omega), if_neg (by omega), if_neg (by omega),
        if_pos (by omega)]
    · rw [secondOk_iff, hb0, hb1]
      omega
    · rw [isCont_iff, hb2]
      omega
    · rw [isCont_iff, hb3]
      omega

/-- What the first byte of a character says. -/
theorem utf8Width_cases (b : UInt8) :
    utf8Width b = 0 ∨ utf8Width b = 1 ∧ b.toNat < 128 ∨
      utf8Width b = 2 ∧ 194 ≤ b.toNat ∧ b.toNat ≤ 223 ∨ utf8Width b = 3 ∧ 224 ≤ b.toNat ∧ b.toNat ≤ 239 ∨
        utf8Width b = 4 ∧ 240 ≤ b.toNat ∧ b.toNat ≤ 244 := by
  rw [utf8Width_toNat]
  split_ifs <;> omega

/-- A byte that will do is not read past the end. -/
theorem exists_of_cont {k : Nat} {rest : List UInt8} (h : 128 ≤ (rest.getD k 0).toNat) :
    ∃ b more, rest.drop k = b :: more ∧ rest.getD k 0 = b := by
  have hk : k < rest.length := by
    by_contra hk
    rw [List.getD_eq_getElem?_getD, List.getElem?_eq_none (Nat.le_of_not_lt hk)] at h
    exact absurd h (by decide)
  refine ⟨rest[k], rest.drop (k + 1), List.drop_eq_getElem_cons hk, ?_⟩
  rw [List.getD_eq_getElem?_getD, List.getElem?_eq_getElem hk, Option.getD_some]

section

variable {b0 : UInt8} {rest : List UInt8} {c : Char} {n : Nat}

theorem two_of_decodeOne (hw : utf8Width b0 = 2) (h : decodeOne b0 rest = (some c, n)) :
    ∃ b1 more, rest = b1 :: more ∧ secondOk b0 b1 = true ∧ n = 2 ∧
      c = Char.ofNat (b0.toNat % 32 * 64 + tail6 b1) := by
  unfold decodeOne at h
  rw [hw] at h
  dsimp only at h
  cases h1 : secondOk b0 (rest.getD 0 0) with
  | false =>
      rw [h1] at h
      cases h
  | true =>
      obtain ⟨b1, more, hdrop, hb1⟩ := exists_of_cont (secondOk_iff.mp h1).1
      rw [h1] at h
      rw [hb1] at h h1
      cases h
      exact ⟨b1, more, hdrop, h1, rfl, rfl⟩

theorem three_of_decodeOne (hw : utf8Width b0 = 3) (h : decodeOne b0 rest = (some c, n)) :
    ∃ b1 b2 more, rest = b1 :: b2 :: more ∧ secondOk b0 b1 = true ∧ isCont b2 = true ∧ n = 3 ∧
      c = Char.ofNat ((b0.toNat % 16 * 64 + tail6 b1) * 64 + tail6 b2) := by
  unfold decodeOne at h
  rw [hw] at h
  dsimp only at h
  cases h1 : secondOk b0 (rest.getD 0 0) with
  | false =>
      rw [h1] at h
      cases h
  | true =>
      cases h2 : isCont (rest.getD 1 0) with
      | false =>
          rw [h1, h2] at h
          cases h
      | true =>
          obtain ⟨b1, more, hdrop, hb1⟩ := exists_of_cont (secondOk_iff.mp h1).1
          obtain ⟨b2, more', hdrop', hb2⟩ := exists_of_cont (isCont_iff.mp h2).1
          rw [List.drop_zero] at hdrop
          subst hdrop
          obtain rfl : more = b2 :: more' := hdrop'
          rw [h1, h2] at h
          cases h
          exact ⟨b1, b2, more', rfl, h1, h2, rfl, rfl⟩

theorem four_of_decodeOne (hw : utf8Width b0 = 4) (h : decodeOne b0 rest = (some c, n)) :
    ∃ b1 b2 b3 more, rest = b1 :: b2 :: b3 :: more ∧ secondOk b0 b1 = true ∧ isCont b2 = true ∧
      isCont b3 = true ∧ n = 4 ∧
        c = Char.ofNat (((b0.toNat % 8 * 64 + tail6 b1) * 64 + tail6 b2) * 64 + tail6 b3) := by
  unfold decodeOne at h
  rw [hw] at h
  dsimp only at h
  cases h1 : secondOk b0 (rest.getD 0 0) with
  | false =>
      rw [h1] at h
      cases h
  | true =>
      cases h2 : isCont (rest.getD 1 0) with
      | false =>
          rw [h1, h2] at h
          cases h
      | true =>
          cases h3 : isCont (rest.getD 2 0) with
          | false =>
              rw [h1, h2, h3] at h
              cases h
          | true =>
              obtain ⟨b1, more, hdrop, hb1⟩ := exists_of_cont (secondOk_iff.mp h1).1
              obtain ⟨b2, more', hdrop', hb2⟩ := exists_of_cont (isCont_iff.mp h2).1
              obtain ⟨b3, more'', hdrop'', hb3⟩ := exists_of_cont (isCont_iff.mp h3).1
              rw [List.drop_zero] at hdrop
              subst hdrop
              obtain rfl : more = b2 :: more' := hdrop'
              obtain rfl : more' = b3 :: more'' := hdrop''
              rw [h1, h2, h3] at h
              cases h
              exact ⟨b1, b2, b3, more'', rfl, h1, h2, h3, rfl, rfl⟩

/-- **A decoded character was its own encoding.** -/
theorem encodeChar_of_decodeOne (h : decodeOne b0 rest = (some c, n)) :
    ∃ tail more, rest = tail ++ more ∧ encodeChar c = b0 :: tail ∧ n = tail.length + 1 := by
  rcases utf8Width_cases b0 with hw | ⟨hw, hlt⟩ | ⟨hw, hlo, hhi⟩ | ⟨hw, hlo, hhi⟩ | ⟨hw, hlo, hhi⟩
  · unfold decodeOne at h
    rw [hw] at h
    cases h
  · rw [decodeOne_one hw] at h
    cases h
    refine ⟨[], rest, rfl, ?_, rfl⟩
    unfold encodeChar
    dsimp only
    rw [char_toNat (by left; omega), if_pos hlt, byte_eq rfl]
  · obtain ⟨b1, more, rfl, h1, rfl, rfl⟩ := two_of_decodeOne hw h
    have h1 := secondOk_iff.mp h1
    refine ⟨[b1], more, rfl, ?_, rfl⟩
    unfold encodeChar tail6
    dsimp only
    rw [char_toNat (by left; omega), if_neg (by omega), if_pos (by omega), byte_eq (b := b0) (by omega),
      byte_eq (b := b1) (by omega)]
  · obtain ⟨b1, b2, more, rfl, h1, h2, rfl, rfl⟩ := three_of_decodeOne hw h
    have h1 := secondOk_iff.mp h1
    have h2 := isCont_iff.mp h2
    refine ⟨[b1, b2], more, rfl, ?_, rfl⟩
    unfold encodeChar tail6
    dsimp only
    rw [char_toNat (by unfold Nat.isValidChar; omega), if_neg (by omega), if_neg (by omega),
      if_pos (by omega), byte_eq (b := b0) (by omega), byte_eq (b := b1) (by omega),
      byte_eq (b := b2) (by omega)]
  · obtain ⟨b1, b2, b3, more, rfl, h1, h2, h3, rfl, rfl⟩ := four_of_decodeOne hw h
    have h1 := secondOk_iff.mp h1
    have h2 := isCont_iff.mp h2
    have h3 := isCont_iff.mp h3
    refine ⟨[b1, b2, b3], more, rfl, ?_, rfl⟩
    unfold encodeChar tail6
    dsimp only
    rw [char_toNat (by unfold Nat.isValidChar; omega), if_neg (by omega), if_neg (by omega),
      if_neg (by omega), byte_eq (b := b0) (by omega), byte_eq (b := b1) (by omega),
      byte_eq (b := b2) (by omega), byte_eq (b := b3) (by omega)]

end

/-! ### Texts -/

theorem encodeChar_ascii {c : Char} (h : c.toNat < 128) : encodeChar c = [UInt8.ofNat c.toNat] := if_pos h

/-- An ASCII text is a byte for each character. -/
theorem asBytes_ascii {s : String} (h : ∀ c ∈ s.toList, c.toNat < 128) :
    asBytes s = s.toList.map fun c => UInt8.ofNat c.toNat := by
  unfold asBytes
  generalize s.toList = cs at h
  induction cs with
  | nil => rfl
  | cons c cs ih =>
      rw [List.flatMap_cons, encodeChar_ascii (h c (by simp)), ih fun d hd => h d (by simp [hd])]
      rfl

/-- The bytes of a text are decoded to its characters. -/
theorem utf8Chunks_encode (cs : List Char) :
    ∀ fuel, (cs.flatMap encodeChar).length ≤ fuel → utf8Chunks fuel (cs.flatMap encodeChar) = cs.map some := by
  induction cs with
  | nil =>
      intro fuel _
      cases fuel <;> rfl
  | cons c rest ih =>
      intro fuel hfuel
      obtain ⟨b, tail, hb, hdecode⟩ := decodeOne_encodeChar c (rest.flatMap encodeChar)
      rw [List.flatMap_cons, hb, List.cons_append] at hfuel ⊢
      obtain ⟨fuel, rfl⟩ := Nat.exists_eq_succ_of_ne_zero (Nat.ne_zero_of_lt hfuel)
      rw [Nat.succ_eq_add_one, utf8Chunks, hdecode, List.map_cons]
      dsimp only
      rw [List.drop_succ_cons, List.drop_left, ih fuel]
      rw [List.length_cons, List.length_append] at hfuel
      omega

theorem mapM_some {X Y : Type*} (f : X → Y) (xs : List X) :
    (xs.map fun x => some (f x)).mapM id = some (xs.map f) := by
  induction xs with
  | nil => rfl
  | cons x rest ih => simp [ih]

/-- **A text is read back from its bytes.** -/
theorem fromUtf8_encode (s : String) : fromUtf8 (asBytes s) = some s := by
  unfold fromUtf8 asBytes
  rw [utf8Chunks_encode _ _ (Nat.le_refl _), mapM_some (fun c => c), List.map_id', Option.map_some,
    String.ofList_toList]

theorem fromUtf8Lossy_encode (s : String) : fromUtf8Lossy (asBytes s) = s := by
  unfold fromUtf8Lossy asBytes
  rw [utf8Chunks_encode _ _ (Nat.le_refl _), List.map_map]
  show String.ofList (s.toList.map id) = s
  rw [List.map_id, String.ofList_toList]

theorem asBytes_inj {s t : String} (h : asBytes s = asBytes t) : s = t := by
  have hs := fromUtf8_encode s
  rw [h, fromUtf8_encode] at hs
  exact (Option.some.inj hs).symm

/-- Characters that were decoded are encoded to the bytes they were decoded from. -/
theorem encode_of_utf8Chunks :
    ∀ (fuel : Nat) (bs : List UInt8) (cs : List Char), bs.length ≤ fuel →
      (utf8Chunks fuel bs).mapM id = some cs → cs.flatMap encodeChar = bs := by
  intro fuel
  induction fuel with
  | zero =>
      intro bs cs hfuel h
      obtain rfl := List.length_eq_zero_iff.mp (Nat.le_zero.mp hfuel)
      cases h
      rfl
  | succ fuel ih =>
      intro bs cs hfuel h
      cases bs with
      | nil =>
          cases h
          rfl
      | cons b rest =>
          rw [utf8Chunks] at h
          rcases hd : decodeOne b rest with ⟨_ | c, n⟩
          · rw [hd] at h
            simp at h
          · obtain ⟨tail, more, rfl, hc, rfl⟩ := encodeChar_of_decodeOne hd
            rw [hd] at h
            dsimp only at h
            rw [List.drop_succ_cons, List.drop_left, List.mapM_cons] at h
            obtain ⟨cs', hcs', rfl⟩ : ∃ cs', (utf8Chunks fuel more).mapM id = some cs' ∧ cs = c :: cs' := by
              cases hm : (utf8Chunks fuel more).mapM id with
              | none => simp [hm] at h
              | some cs' => exact ⟨cs', rfl, by simpa [hm] using h.symm⟩
            have hlen : more.length ≤ fuel := by
              rw [List.length_cons, List.length_append] at hfuel
              omega
            rw [List.flatMap_cons, hc, ih more cs' hlen hcs', List.cons_append]

/-- **Bytes that are a text are the bytes of that text.** -/
theorem asBytes_of_fromUtf8 {bs : List UInt8} {s : String} (h : fromUtf8 bs = some s) : asBytes s = bs := by
  unfold fromUtf8 at h
  obtain ⟨cs, hcs, rfl⟩ := Option.map_eq_some_iff.mp h
  unfold asBytes
  rw [String.toList_ofList]
  exact encode_of_utf8Chunks bs.length bs cs (Nat.le_refl _) hcs

/-- ASCII bytes are the text of their characters. -/
theorem fromUtf8_ascii {bs : List UInt8} (h : ∀ b ∈ bs, b < 0x80) :
    fromUtf8 bs = some (String.ofList (bs.map fun b => Char.ofNat b.toNat)) := by
  have hbytes : asBytes (String.ofList (bs.map fun b => Char.ofNat b.toNat)) = bs := by
    unfold asBytes
    rw [String.toList_ofList]
    induction bs with
    | nil => rfl
    | cons b rest ih =>
        have hb : b.toNat < 128 := UInt8.lt_iff_toNat_lt.mp (h b (List.mem_cons_self ..))
        have hnat := char_toNat (n := b.toNat) (by left; omega)
        rw [List.map_cons, List.flatMap_cons, ih fun x hx => h x (List.mem_cons_of_mem _ hx),
          encodeChar_ascii (by rw [hnat]; exact hb), hnat, byte_eq rfl]
        rfl
  rw [← hbytes, fromUtf8_encode, hbytes]

/-! ### Letter case -/

/-- `u8::to_ascii_lowercase` -/
def toAsciiLowercase (b : UInt8) : UInt8 := if 65 ≤ b ∧ b ≤ 90 then b + 32 else b

theorem toAsciiLowercase_ascii {b : UInt8} : toAsciiLowercase b < 0x80 ↔ b < 0x80 := by
  unfold toAsciiLowercase
  split_ifs with h
  · simp only [UInt8.le_iff_toNat_le, UInt8.lt_iff_toNat_lt, UInt8.toNat_add, UInt8.reduceToNat] at h ⊢
    omega
  · exact Iff.rfl

/-- Behind ASCII, no byte of a character is one of ASCII. -/
theorem encodeChar_high {c : Char} (h : ¬c.toNat < 128) : ∀ b ∈ encodeChar c, 128 ≤ b.toNat := by
  have hvalid : c.toNat < 55296 ∨ 57343 < c.toNat ∧ c.toNat < 1114112 := c.valid
  unfold encodeChar
  dsimp only
  rw [if_neg h]
  split_ifs
  · simp only [List.forall_mem_cons, byte_toNat (n := 0xC0 + c.toNat / 64) (by omega),
      byte_toNat (n := 0x80 + c.toNat % 64) (by omega)]
    exact ⟨by omega, by omega, fun b hb => absurd hb (List.not_mem_nil)⟩
  · simp only [List.forall_mem_cons, byte_toNat (n := 0xE0 + c.toNat / 4096) (by omega),
      byte_toNat (n := 0x80 + c.toNat / 64 % 64) (by omega), byte_toNat (n := 0x80 + c.toNat % 64) (by omega)]
    exact ⟨by omega, by omega, by omega, fun b hb => absurd hb (List.not_mem_nil)⟩
  · simp only [List.forall_mem_cons, byte_toNat (n := 0xF0 + c.toNat / 262144) (by omega),
      byte_toNat (n := 0x80 + c.toNat / 4096 % 64) (by omega),
      byte_toNat (n := 0x80 + c.toNat / 64 % 64) (by omega), byte_toNat (n := 0x80 + c.toNat % 64) (by omega)]
    exact ⟨by omega, by omega, by omega, by omega, fun b hb => absurd hb (List.not_mem_nil)⟩

theorem encodeChar_toLower (c : Char) : encodeChar c.toLower = (encodeChar c).map toAsciiLowercase := by
  by_cases h : c.toNat < 128
  · have hall : ∀ n < 128, encodeChar (Char.ofNat n).toLower
        = (encodeChar (Char.ofNat n)).map toAsciiLowercase := by decide
    have hc := hall c.toNat h
    rwa [Char.ofNat_toNat] at hc
  · have hsame : c.toLower = c := by
      unfold Char.toLower
      rw [dif_neg]
      intro hrange
      exact h (Nat.lt_of_le_of_lt (UInt32.le_iff_toNat_le.mp hrange.2) (by decide))
    have hbytes : (encodeChar c).map toAsciiLowercase = (encodeChar c).map id := by
      refine List.map_congr_left ?_
      intro b hb
      refine if_neg ?_
      rw [UInt8.le_iff_toNat_le, UInt8.le_iff_toNat_le]
      have := encodeChar_high h b hb
      intro hrange
      have hle : b.toNat ≤ 90 := hrange.2
      omega
    rw [hsame, hbytes, List.map_id]

theorem asBytes_map_toLower (s : String) :
    (asBytes s).map toAsciiLowercase = asBytes (String.ofList (s.toList.map Char.toLower)) := by
  unfold asBytes
  rw [String.toList_ofList, List.map_flatMap, List.flatMap_map]
  simp only [encodeChar_toLower]

/-- Texts that differ in their letters' case are bytes that do. -/
theorem eqIgnoreAsciiCase_iff {s t : String} : eqIgnoreAsciiCase s t = true ↔
    (asBytes s).map toAsciiLowercase = (asBytes t).map toAsciiLowercase := by
  unfold eqIgnoreAsciiCase
  rw [decide_eq_true_eq, asBytes_map_toLower, asBytes_map_toLower]
  constructor
  · intro h
    rw [h]
  · intro h
    exact String.ofList_injective (asBytes_inj h)

/-! ### Texts that are cut off -/

theorem encodeChar_tail {c : Char} {b : UInt8} {tail : List UInt8} (h : encodeChar c = b :: tail) :
    ∀ x ∈ tail, utf8Width x = 0 := by
  have hcont : ∀ n : Nat, n < 64 → utf8Width (UInt8.ofNat (0x80 + n)) = 0 := by
    intro n hn
    rw [utf8Width_toNat, byte_toNat (by omega)]
    split_ifs <;> omega
  have hmod : ∀ n : Nat, n % 64 < 64 := fun n => Nat.mod_lt n (by decide)
  unfold encodeChar at h
  dsimp only at h
  split_ifs at h <;> obtain ⟨rfl, rfl⟩ := List.cons.inj h <;>
    simp only [List.forall_mem_cons, hcont _ (hmod _), List.not_mem_nil, false_imp_iff, implies_true, and_self]

/-- Bytes that nothing can start with. -/
theorem utf8Chunks_tail {bs : List UInt8} (h : ∀ x ∈ bs, utf8Width x = 0) :
    ∀ fuel, ∀ x ∈ utf8Chunks fuel bs, x = none := by
  induction bs with
  | nil =>
      intro fuel
      cases fuel <;> simp [utf8Chunks]
  | cons b rest ih =>
      intro fuel
      rw [List.forall_mem_cons] at h
      have hone : decodeOne b rest = (none, 1) := by
        unfold decodeOne
        rw [h.1]
        rfl
      cases fuel with
      | zero => simp [utf8Chunks]
      | succ fuel =>
          rw [utf8Chunks, hone, List.forall_mem_cons]
          exact ⟨rfl, ih h.2 fuel⟩

/-- A character without its last bytes is none. -/
theorem utf8Chunks_cut {c : Char} {k : Nat} (hk : k < (encodeChar c).length) :
    ∀ fuel, ∀ x ∈ utf8Chunks fuel ((encodeChar c).take k), x = none := by
  intro fuel
  obtain ⟨b, tail, hb, hdecode⟩ := decodeOne_encodeChar c []
  have htail := encodeChar_tail hb
  rw [hb] at hk ⊢
  cases k with
  | zero => cases fuel <;> simp [utf8Chunks]
  | succ k =>
      rw [List.take_succ_cons]
      cases fuel with
      | zero => simp [utf8Chunks]
      | succ fuel =>
          have hnone : (decodeOne b (tail.take k)).1 = none := by
            cases h : decodeOne b (tail.take k) with
            | mk found n =>
                cases found with
                | none => rfl
                | some d =>
                    exfalso
                    obtain ⟨front, more, hcut, hd, -⟩ := encodeChar_of_decodeOne h
                    -- the bytes of `d` are in front of those of `c`, so `d` is decoded there too
                    obtain ⟨b', tail', hb', hdecode'⟩ := decodeOne_encodeChar d (more ++ tail.drop k)
                    rw [hd] at hb'
                    obtain ⟨rfl, rfl⟩ := List.cons.inj hb'
                    rw [← List.append_assoc, ← hcut, List.take_append_drop] at hdecode'
                    rw [List.append_nil, hdecode'] at hdecode
                    have hlen := congrArg (·.2) hdecode
                    have hcutlen := congrArg List.length hcut
                    simp only [List.length_take, List.length_append, List.length_cons] at hlen hcutlen hk
                    omega
          have hpos : 1 ≤ (decodeOne b (tail.take k)).2 := by
            unfold decodeOne
            dsimp only
            split <;> repeat' split
            all_goals exact Nat.succ_le_succ (Nat.zero_le _)
          rw [utf8Chunks, List.forall_mem_cons]
          refine ⟨hnone, utf8Chunks_tail ?_ fuel⟩
          intro x hx
          obtain ⟨n, hn⟩ := Nat.exists_eq_succ_of_ne_zero (Nat.ne_of_gt hpos)
          rw [hn, Nat.succ_eq_add_one, List.drop_succ_cons] at hx
          exact htail x (List.mem_of_mem_take (List.mem_of_mem_drop hx))

/-- **A text that is cut off anywhere** is the characters before the cut, and nothing behind them. -/
theorem utf8Chunks_take (cs : List Char) : ∀ k fuel, ((cs.flatMap encodeChar).take k).length ≤ fuel →
    ∃ j tail, utf8Chunks fuel ((cs.flatMap encodeChar).take k) = (cs.take j).map some ++ tail ∧
      ∀ x ∈ tail, x = none := by
  induction cs with
  | nil =>
      intro k fuel _
      refine ⟨0, [], ?_, by simp⟩
      cases fuel <;> simp [utf8Chunks]
  | cons c rest ih =>
      intro k fuel hfuel
      by_cases hk : k < (encodeChar c).length
      · refine ⟨0, _, rfl, ?_⟩
        rw [List.flatMap_cons, List.take_append_of_le_length (Nat.le_of_lt hk)]
        exact utf8Chunks_cut hk fuel
      · have hlen : ((encodeChar c).take k).length = (encodeChar c).length := by
          rw [List.take_of_length_le (Nat.le_of_not_lt hk)]
        rw [List.flatMap_cons, List.take_append, List.take_of_length_le (Nat.le_of_not_lt hk)] at hfuel ⊢
        generalize k - (encodeChar c).length = m at hfuel ⊢
        obtain ⟨b, tail, hb, hdecode⟩ := decodeOne_encodeChar c ((rest.flatMap encodeChar).take m)
        rw [hb, List.cons_append] at hfuel ⊢
        obtain ⟨fuel, rfl⟩ := Nat.exists_eq_succ_of_ne_zero (Nat.ne_zero_of_lt hfuel)
        rw [List.length_cons, List.length_append] at hfuel
        obtain ⟨j, more, hchunks, hnone⟩ := ih m fuel (by omega)
        refine ⟨j + 1, more, ?_, hnone⟩
        rw [Nat.succ_eq_add_one, utf8Chunks, hdecode, List.take_succ_cons, List.map_cons]
        dsimp only
        rw [List.drop_succ_cons, List.drop_left, hchunks, List.cons_append]

/-- The same for `from_utf8_lossy`, which puts replacement characters for what was cut. -/
theorem fromUtf8Lossy_take (s : String) (k : Nat) : ∃ j n,
    (fromUtf8Lossy ((asBytes s).take k)).toList = s.toList.take j ++ List.replicate n '\uFFFD' := by
  obtain ⟨j, tail, hchunks, hnone⟩ := utf8Chunks_take s.toList k _ (Nat.le_refl _)
  refine ⟨j, tail.length, ?_⟩
  have htail : tail.map (·.getD '\uFFFD') = List.replicate tail.length '\uFFFD' := by
    rw [List.eq_replicate_iff, List.length_map]
    refine ⟨rfl, ?_⟩
    rw [List.forall_mem_map]
    intro x hx
    rw [hnone x hx, Option.getD_none]
  unfold fromUtf8Lossy asBytes
  rw [hchunks, String.toList_ofList, List.map_append, List.map_map, htail]
  show (s.toList.take j).map id ++ _ = _
  rw [List.map_id]

end RustStd
