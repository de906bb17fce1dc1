import LabeledBlocks.Proofs.Container.Reading

/-!
# What a checksum tells apart

Nothing is lost when the register takes in a byte: the bit that falls out decides whether the
polynomial is subtracted, and with it the topmost bit of the register. So two registers that differ
go on to differ, and two bytes lead one register to different ones. Lists of bytes that differ in
one place only have different checksums.

* `Checksum.shift_injective`, `Checksum.update_injective` — no two registers fall together.
* `OneByteApart` — two lists of bytes differ in one place.
* `OneByteApart.checksum_ne` — and so their checksums differ.
-/

namespace LabeledBlocks

namespace Checksum

/-! ### The register -/

theorem toNat_half (register : Checksum) : (register >>> 1).toNat = register.toNat / 2 := by
  rw [UInt32.toNat_shiftRight, Nat.shiftRight_eq_div_pow]
  rfl

theorem low_iff (register : Checksum) : register &&& 1 = 1 ↔ register.toNat % 2 = 1 := by
  rw [← UInt32.toNat_inj, UInt32.toNat_and, UInt32.toNat_one, Nat.and_one_is_mod]

/-- The polynomial has a topmost bit, and a register that was moved down has none, so that it can be
seen whether the polynomial was subtracted. -/
theorem half_ne_xor (a b : Checksum) : a >>> 1 ≠ (b >>> 1) ^^^ 0xEDB88320 := by
  intro same
  have small : ∀ register : Checksum, (register >>> 1).toNat < 2 ^ 31 := by
    intro register
    have bound := register.toNat_lt
    rw [toNat_half]
    omega
  have polynomial : (a >>> 1) ^^^ (b >>> 1) = 0xEDB88320 := by
    rw [same, UInt32.xor_comm (b >>> 1), UInt32.xor_assoc, UInt32.xor_self, UInt32.xor_zero]
  have less := Nat.xor_lt_two_pow (small a) (small b)
  rw [← UInt32.toNat_xor, polynomial] at less
  exact absurd less (by decide)

/-- A register is known from the bit that falls out, and the others. -/
theorem eq_of_half_eq {a b : Checksum} (half : a >>> 1 = b >>> 1)
    (low : a &&& 1 = 1 ↔ b &&& 1 = 1) : a = b := by
  rw [low_iff, low_iff] at low
  rw [← UInt32.toNat_inj, toNat_half, toNat_half] at half
  rw [← UInt32.toNat_inj]
  omega

/-- No two registers are shifted to the same one. -/
theorem shift_injective {a b : Checksum} (same : shift a = shift b) : a = b := by
  unfold shift at same
  by_cases ha : a &&& 1 = 1
  · by_cases hb : b &&& 1 = 1
    · rw [if_pos ha, if_pos hb] at same
      exact eq_of_half_eq ((UInt32.xor_left_inj _).mp same) (iff_of_true ha hb)
    · rw [if_pos ha, if_neg hb] at same
      exact absurd same.symm (half_ne_xor b a)
  · by_cases hb : b &&& 1 = 1
    · rw [if_neg ha, if_pos hb] at same
      exact absurd same (half_ne_xor a b)
    · rw [if_neg ha, if_neg hb] at same
      exact eq_of_half_eq same (iff_of_false ha hb)

theorem eq_of_step_eq {a b : Checksum} {x y : UInt8} (same : step a x = step b y) :
    a ^^^ x.toUInt32 = b ^^^ y.toUInt32 := by
  unfold step at same
  iterate 8 apply shift_injective at same
  exact same

/-- The same bytes lead different registers to different ones. -/
theorem update_injective {a b : Checksum} {bytes : List UInt8}
    (same : a.update bytes = b.update bytes) : a = b := by
  unfold update at same
  induction bytes generalizing a b with
  | nil => exact same
  | cons byte bytes ih => exact (UInt32.xor_left_inj _).mp (eq_of_step_eq (ih same))

end Checksum

/-! ### Lists of bytes -/

/-- The lists differ in one byte, and in no other. -/
def OneByteApart (bytes damaged : List UInt8) : Prop :=
  ∃ front old new back, bytes = front ++ old :: back ∧ damaged = front ++ new :: back ∧ old ≠ new

namespace OneByteApart

variable {bytes damaged more more' : List UInt8}

theorem ne (apart : OneByteApart bytes damaged) : bytes ≠ damaged := by
  obtain ⟨front, old, new, back, rfl, rfl, differ⟩ := apart
  intro same
  exact differ (List.cons.inj (List.append_cancel_left same)).1

theorem length_eq (apart : OneByteApart bytes damaged) : bytes.length = damaged.length := by
  obtain ⟨front, old, new, back, rfl, rfl, _⟩ := apart
  simp

/-- The place is in the one part or in the other. -/
theorem append (apart : OneByteApart (bytes ++ more) (damaged ++ more'))
    (length : bytes.length = damaged.length) :
    OneByteApart bytes damaged ∧ more = more' ∨ bytes = damaged ∧ OneByteApart more more' := by
  obtain ⟨front, old, new, back, start, start', differ⟩ := apart
  rcases List.append_eq_append_iff.mp start with ⟨behind, rfl, rfl⟩ | ⟨inside, rfl, rest⟩
  · rw [List.append_assoc] at start'
    obtain ⟨rfl, rfl⟩ := List.append_inj start' length.symm
    exact .inr ⟨rfl, behind, old, new, back, rfl, rfl, differ⟩
  · cases inside with
    | nil =>
      rw [List.append_nil] at length ⊢
      obtain ⟨rfl, rfl⟩ := List.append_inj start' length.symm
      exact .inr ⟨rfl, [], old, new, back, rest.symm, rfl, differ⟩
    | cons byte inside =>
      obtain ⟨rfl, rfl⟩ := List.cons.inj rest
      have split : damaged ++ more' = (front ++ new :: inside) ++ more := by
        rw [start', List.append_assoc]
        rfl
      have length' : damaged.length = (front ++ new :: inside).length := by simp [← length]
      obtain ⟨rfl, rfl⟩ := List.append_inj split length'
      exact .inl ⟨⟨front, old, new, inside, rfl, rfl, differ⟩, rfl⟩

/-- The checksums of lists that differ in one byte are different. -/
theorem checksum_ne (apart : OneByteApart bytes damaged) :
    Checksum.of bytes ≠ Checksum.of damaged := by
  obtain ⟨front, old, new, back, rfl, rfl, differ⟩ := apart
  intro same
  have one : ∀ byte, Checksum.start.update (front ++ byte :: back) =
      ((Checksum.start.update front).step byte).update back := by
    intro byte
    simp [Checksum.update]
  have registers := (UInt32.xor_left_inj _).mp same
  rw [one, one] at registers
  have steps := Checksum.update_injective registers
  have bytes := (UInt32.xor_right_inj _).mp (Checksum.eq_of_step_eq steps)
  have number := congrArg UInt32.toNat bytes
  rw [UInt8.toNat_toUInt32, UInt8.toNat_toUInt32] at number
  exact differ (UInt8.toNat_inj.mp number)

end OneByteApart

end LabeledBlocks
