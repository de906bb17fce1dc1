import LabeledBlocks.Text.Utf8

/-!
# Reading back what was written in UTF-8

* `Utf8.decode_encode` — every text is read back from its bytes.
-/

namespace LabeledBlocks.Utf8

/-- A character is below 0x110000 and no surrogate. -/
theorem toNat_valid (c : Char) : c.toNat < 0xD800 ∨ 0xE000 ≤ c.toNat ∧ c.toNat < 0x110000 := by
  rcases c.valid with low | ⟨above, below⟩
  · exact .inl low
  · exact .inr ⟨above, below⟩

theorem toNat_byte {n : Nat} (h : n < 256) : (UInt8.ofNat n).toNat = n := by
  rw [UInt8.toNat_ofNat']
  exact Nat.mod_eq_of_lt h

/-- A continuation byte carries six bits. -/
theorem isTail_byte {n : Nat} (h : n < 64) : isTail (.ofNat (0x80 + n)) = true := by
  have byte := toNat_byte (n := 0x80 + n) (by omega)
  rw [isTail, byte, Bool.and_eq_true, decide_eq_true_eq, decide_eq_true_eq]
  exact ⟨by omega, by omega⟩

theorem tailBits_byte {n : Nat} (h : n < 64) : tailBits (.ofNat (0x80 + n)) = n := by
  have byte := toNat_byte (n := 0x80 + n) (by omega)
  unfold tailBits
  omega

/-- The second byte is in its range: not too low for the shortest form, and not too high for a
surrogate or for the last character. -/
theorem isSecond_byte (lead : Nat) {n : Nat} (hlead : lead < 256) (h : n < 64)
    (short : lead = 0xE0 → 32 ≤ n) (surrogate : lead = 0xED → n < 32)
    (least : lead = 0xF0 → 16 ≤ n) (greatest : lead = 0xF4 → n < 16) :
    isSecond (.ofNat lead) (.ofNat (0x80 + n)) = true := by
  have first := toNat_byte hlead
  have second := toNat_byte (n := 0x80 + n) (by omega)
  simp only [isSecond, first, second, Bool.and_eq_true, decide_eq_true_eq]
  constructor
  · split
    · omega
    · split
      · omega
      · omega
  · split
    · omega
    · split
      · omega
      · omega

/-! ### One character -/

section Character

variable {c : Char} {start : Nat} {rest : List UInt8}

theorem decodeFrom_one (h : c.toNat < 0x80) :
    decodeFrom start (encodeChar c ++ rest) = (decodeFrom (start + 1) rest).map (c :: ·) := by
  have byte := toNat_byte (n := c.toNat) (by omega)
  rw [encodeChar, if_pos h, List.cons_append, List.nil_append, decodeFrom.eq_def]
  dsimp only
  rw [byte, if_pos h, Char.ofNat_toNat]

/-- A character of two bytes is read back. -/
theorem decodeFrom_two (least : 0x80 ≤ c.toNat) (h : c.toNat < 0x800) :
    decodeFrom start (encodeChar c ++ rest) = (decodeFrom (start + 2) rest).map (c :: ·) := by
  have lead := toNat_byte (n := 0xC0 + c.toNat / 64) (by omega)
  have low : c.toNat % 64 < 64 := Nat.mod_lt _ (by omega)
  have value : (0xC0 + c.toNat / 64 - 0xC0) * 64 + c.toNat % 64 = c.toNat := by omega
  rw [encodeChar, if_neg (by omega), if_pos h, List.cons_append, List.cons_append,
    List.nil_append, decodeFrom.eq_def]
  dsimp only
  rw [lead, if_neg (by omega), if_neg (by omega), if_pos (by omega)]
  simp only [isTail_byte low, if_true, tailBits_byte low, value, Char.ofNat_toNat]

/-- A character of three bytes is read back. -/
theorem decodeFrom_three (least : 0x800 ≤ c.toNat) (h : c.toNat < 0x10000)
    (valid : c.toNat < 0xD800 ∨ 0xE000 ≤ c.toNat) :
    decodeFrom start (encodeChar c ++ rest) = (decodeFrom (start + 3) rest).map (c :: ·) := by
  have lead := toNat_byte (n := 0xE0 + c.toNat / 4096) (by omega)
  have middle : c.toNat / 64 % 64 < 64 := Nat.mod_lt _ (by omega)
  have low : c.toNat % 64 < 64 := Nat.mod_lt _ (by omega)
  have second := isSecond_byte (0xE0 + c.toNat / 4096) (by omega) middle
    (by omega) (by omega) (by omega) (by omega)
  have value : (0xE0 + c.toNat / 4096 - 0xE0) * 4096 + c.toNat / 64 % 64 * 64 + c.toNat % 64 =
      c.toNat := by omega
  rw [encodeChar, if_neg (by omega), if_neg (by omega), if_pos h]
  simp only [List.cons_append, List.nil_append]
  rw [decodeFrom.eq_def]
  dsimp only
  rw [lead, if_neg (by omega), if_neg (by omega), if_neg (by omega),
    if_pos (by omega)]
  simp only [second, isTail_byte low, if_true, tailBits_byte middle, tailBits_byte low, value,
    Char.ofNat_toNat]

/-- A character of four bytes is read back. -/
theorem decodeFrom_four (least : 0x10000 ≤ c.toNat) (h : c.toNat < 0x110000) :
    decodeFrom start (encodeChar c ++ rest) = (decodeFrom (start + 4) rest).map (c :: ·) := by
  have lead := toNat_byte (n := 0xF0 + c.toNat / 262144) (by omega)
  have high : c.toNat / 4096 % 64 < 64 := Nat.mod_lt _ (by omega)
  have middle : c.toNat / 64 % 64 < 64 := Nat.mod_lt _ (by omega)
  have low : c.toNat % 64 < 64 := Nat.mod_lt _ (by omega)
  have second := isSecond_byte (0xF0 + c.toNat / 262144) (by omega) high
    (by omega) (by omega) (by omega) (by omega)
  have value : (0xF0 + c.toNat / 262144 - 0xF0) * 262144 + c.toNat / 4096 % 64 * 4096 +
      c.toNat / 64 % 64 * 64 + c.toNat % 64 = c.toNat := by omega
  rw [encodeChar, if_neg (by omega), if_neg (by omega), if_neg (by omega)]
  simp only [List.cons_append, List.nil_append]
  rw [decodeFrom.eq_def]
  dsimp only
  rw [lead, if_neg (by omega), if_neg (by omega), if_neg (by omega),
    if_neg (by omega), if_pos (by omega)]
  simp only [second, isTail_byte middle, isTail_byte low, if_true, tailBits_byte high,
    tailBits_byte middle, tailBits_byte low, value, Char.ofNat_toNat]

end Character

/-- The bytes of one character in front of others are read as this character. -/
theorem decodeFrom_encodeChar (c : Char) (start : Nat) (rest : List UInt8) :
    ∃ next, decodeFrom start (encodeChar c ++ rest) = (decodeFrom next rest).map (c :: ·) := by
  have valid := toNat_valid c
  by_cases one : c.toNat < 0x80
  · exact ⟨_, decodeFrom_one one⟩
  · by_cases two : c.toNat < 0x800
    · exact ⟨_, decodeFrom_two (by omega) two⟩
    · by_cases three : c.toNat < 0x10000
      · exact ⟨_, decodeFrom_three (by omega) three (by omega)⟩
      · exact ⟨_, decodeFrom_four (by omega) (by omega)⟩

/-! ### Texts -/

/-- All characters of a text are read back. -/
theorem decodeFrom_flatMap (chars : List Char) (start : Nat) :
    decodeFrom start (chars.flatMap encodeChar) = .ok chars := by
  induction chars generalizing start with
  | nil => rfl
  | cons c chars ih =>
    obtain ⟨next, h⟩ := decodeFrom_encodeChar c start (chars.flatMap encodeChar)
    rw [List.flatMap_cons, h, ih]
    rfl

/-- Every text is read back from its bytes. -/
theorem decode_encode (text : String) : decode (encode text) = .ok text := by
  rw [decode, encode, decodeFrom_flatMap]
  exact congrArg Except.ok String.ofList_toList

end LabeledBlocks.Utf8
