import LabeledBlocks.Proofs.Outcomes
import LabeledBlocks.Proofs.Text.Utf8

/-!
# Every text has one form in UTF-8

Only the shortest form of a character is read, and no surrogate is, so that bytes that can be read
are the ones that the text would be written with. Texts are in the order of their bytes.

* `Utf8.encode_of_decode` — bytes that are read as a text are the bytes of the text.
* `Utf8.encode_lt_encode_iff` — a text is less than another exactly when its bytes are.
-/

namespace LabeledBlocks.Utf8

/-! ### Bytes that are read -/

theorem byte_eq {n : Nat} {b : UInt8} (h : n = b.toNat) : UInt8.ofNat n = b := by
  subst h
  exact UInt8.ofNat_toNat

/-- A number that is no surrogate, and not too large, is the number of a character. -/
theorem toNat_ofNat {n : Nat} (h : n < 0xD800 ∨ 0xE000 ≤ n ∧ n < 0x110000) :
    (Char.ofNat n).toNat = n := by
  have valid : n.isValidChar := by
    unfold Nat.isValidChar
    omega
  rw [Char.ofNat, dif_pos valid]
  rfl

theorem isTail_iff {b : UInt8} : isTail b = true ↔ 0x80 ≤ b.toNat ∧ b.toNat < 0xC0 := by
  simp [isTail]

/-- A byte that may be the second one is a continuation byte, not too low for the shortest form,
and not too high for a surrogate or for the last character. -/
theorem isSecond_imp {a b : UInt8} (h : isSecond a b = true) :
    (0x80 ≤ b.toNat ∧ b.toNat < 0xC0) ∧
      (a.toNat = 0xE0 → 0xA0 ≤ b.toNat) ∧ (a.toNat = 0xED → b.toNat < 0xA0) ∧
      (a.toNat = 0xF0 → 0x90 ≤ b.toNat) ∧ (a.toNat = 0xF4 → b.toNat < 0x90) := by
  simp only [isSecond, Bool.and_eq_true, decide_eq_true_eq] at h
  split_ifs at h <;> omega

section Character

variable {a b c d : UInt8}

theorem encodeChar_one (h : a.toNat < 0x80) : encodeChar (Char.ofNat a.toNat) = [a] := by
  have number := toNat_ofNat (n := a.toNat) (by omega)
  simp only [encodeChar, number, if_pos h, UInt8.ofNat_toNat]

/-- Two bytes that are read are those of the character. -/
theorem encodeChar_two (least : 0xC2 ≤ a.toNat) (h : a.toNat < 0xE0) (tail : isTail b = true) :
    encodeChar (Char.ofNat ((a.toNat - 0xC0) * 64 + tailBits b)) = [a, b] := by
  rw [isTail_iff] at tail
  unfold tailBits
  have number := toNat_ofNat (n := (a.toNat - 0xC0) * 64 + (b.toNat - 0x80)) (by omega)
  unfold encodeChar
  rw [number]
  dsimp only
  rw [if_neg (by omega), if_pos (by omega), byte_eq (b := a) (by omega),
    byte_eq (b := b) (by omega)]

/-- Three bytes that are read are those of the character. -/
theorem encodeChar_three (least : 0xE0 ≤ a.toNat) (h : a.toNat < 0xF0)
    (second : isSecond a b = true) (tail : isTail c = true) :
    encodeChar (Char.ofNat ((a.toNat - 0xE0) * 4096 + tailBits b * 64 + tailBits c)) =
      [a, b, c] := by
  have ranges := isSecond_imp second
  rw [isTail_iff] at tail
  unfold tailBits
  have number := toNat_ofNat
    (n := (a.toNat - 0xE0) * 4096 + (b.toNat - 0x80) * 64 + (c.toNat - 0x80)) (by omega)
  unfold encodeChar
  rw [number]
  dsimp only
  rw [if_neg (by omega), if_neg (by omega), if_pos (by omega), byte_eq (b := a) (by omega),
    byte_eq (b := b) (by omega), byte_eq (b := c) (by omega)]

/-- Four bytes that are read are those of the character. -/
theorem encodeChar_four (least : 0xF0 ≤ a.toNat) (h : a.toNat < 0xF5)
    (second : isSecond a b = true) (third : isTail c = true) (tail : isTail d = true) :
    encodeChar (Char.ofNat ((a.toNat - 0xF0) * 262144 + tailBits b * 4096 + tailBits c * 64 +
      tailBits d)) = [a, b, c, d] := by
  have ranges := isSecond_imp second
  rw [isTail_iff] at third tail
  unfold tailBits
  have number := toNat_ofNat (n := (a.toNat - 0xF0) * 262144 + (b.toNat - 0x80) * 4096 +
    (c.toNat - 0x80) * 64 + (d.toNat - 0x80)) (by omega)
  unfold encodeChar
  rw [number]
  dsimp only
  rw [if_neg (by omega), if_neg (by omega), if_neg (by omega), byte_eq (b := a) (by omega),
    byte_eq (b := b) (by omega), byte_eq (b := c) (by omega), byte_eq (b := d) (by omega)]

end Character

/-- Characters that were read are written as the bytes that they were read from. -/
theorem flatMap_of_decodeFrom {start : Nat} {bytes : List UInt8} {chars : List Char}
    (read : decodeFrom start bytes = .ok chars) : chars.flatMap encodeChar = bytes := by
  have behind : ∀ {char : Char} {own rest : List UInt8} {result : Except Fault (List Char)}
      {chars : List Char}, result.map (char :: ·) = .ok chars → encodeChar char = own →
      (∀ more, result = .ok more → more.flatMap encodeChar = rest) →
      chars.flatMap encodeChar = own ++ rest := by
    intro char own rest result chars mapped first ih
    obtain ⟨more, known, rfl⟩ := map_eq_ok.mp mapped
    rw [List.flatMap_cons, first, ih more known]
  fun_induction decodeFrom start bytes generalizing chars with
  | case1 =>
    cases read
    rfl
  | case2 start a rest one ih => exact behind read (encodeChar_one one) fun _ => ih
  | case5 start a notOne least two b rest tail ih =>
    exact behind read (encodeChar_two (by omega) two tail) fun _ => ih
  | case9 start a notOne least notTwo three b second c rest tail ih =>
    exact behind read (encodeChar_three (by omega) three second tail) fun _ => ih
  | case15 start a notOne least notTwo notThree four b second c third d rest tail ih =>
    exact behind read (encodeChar_four (by omega) four second third tail) fun _ => ih
  | _ => cases read

/-- Bytes that are read as a text are the bytes of the text. -/
theorem encode_of_decode {bytes : List UInt8} {text : String} (read : decode bytes = .ok text) :
    encode text = bytes := by
  obtain ⟨chars, known, rfl⟩ := map_eq_ok.mp read
  rw [encode, String.toList_ofList]
  exact flatMap_of_decodeFrom known

/-! ### The order of texts -/

theorem ofNat_cons_lt {m n : Nat} {l l' : List UInt8} (hm : m < 256) (hn : n < 256) :
    UInt8.ofNat m :: l < UInt8.ofNat n :: l' ↔ m < n ∨ m = n ∧ l < l' := by
  rw [List.cons_lt_cons_iff, UInt8.lt_iff_toNat_lt, ← UInt8.toNat_inj, toNat_byte hm, toNat_byte hn]

/-- The lesser of two characters has the lesser bytes, whatever follows them. -/
theorem encodeChar_append_lt {c d : Char} (h : c < d) (rest rest' : List UInt8) :
    encodeChar c ++ rest < encodeChar d ++ rest' := by
  have less : c.toNat < d.toNat := h
  have bound := toNat_valid d
  unfold encodeChar
  dsimp only
  generalize c.toNat = m at *
  generalize d.toNat = n at *
  split_ifs <;>
    simp (disch := omega) only [List.cons_append, List.nil_append, ofNat_cons_lt] <;> omega

theorem encodeChar_ne_nil (c : Char) : encodeChar c ≠ [] := by
  unfold encodeChar
  dsimp only
  split_ifs <;> exact List.cons_ne_nil _ _

/-- Texts are ordered like their bytes. -/
theorem flatMap_lt {chars chars' : List Char} (h : chars < chars') :
    chars.flatMap encodeChar < chars'.flatMap encodeChar := by
  induction chars generalizing chars' with
  | nil =>
    cases chars' with
    | nil => exact absurd h (List.lt_irrefl _)
    | cons d rest' =>
      obtain ⟨byte, more, some⟩ := List.exists_cons_of_ne_nil (encodeChar_ne_nil d)
      rw [List.flatMap_cons, some]
      exact List.nil_lt_cons _ _
  | cons c rest ih =>
    cases chars' with
    | nil => exact absurd h (List.not_lt_nil _)
    | cons d rest' =>
      rw [List.flatMap_cons, List.flatMap_cons]
      rcases List.cons_lt_cons_iff.mp h with less | ⟨rfl, less⟩
      · exact encodeChar_append_lt less _ _
      · exact List.append_left_lt (ih less)

/-- A text is less than another exactly when its bytes are. -/
theorem encode_lt_encode_iff {text text' : String} : encode text < encode text' ↔ text < text' := by
  have forward : ∀ {a b : String}, a < b → encode a < encode b := fun less =>
    flatMap_lt (String.lt_iff.mp less)
  constructor
  · intro less
    apply Decidable.byContradiction
    intro notLess
    rcases Decidable.em (text' < text) with greater | notGreater
    · exact List.lt_irrefl _ (List.lt_trans less (forward greater))
    · have same : text = text' :=
        String.le_antisymm (String.not_lt.mp notGreater) (String.not_lt.mp notLess)
      exact List.lt_irrefl _ (same ▸ less)
  · exact forward

end LabeledBlocks.Utf8
