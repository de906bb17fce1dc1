import LabeledBlocks.Arithmetic

/-!
# Byte order

Numbers of several bytes, with the least or the most significant byte first.

* `ByteOrder.bytes` writes a number in a fixed count of bytes, `ByteOrder.number` reads it back.
-/

namespace LabeledBlocks

/-- Which byte of a number comes first. -/
inductive ByteOrder where
  /-- The least significant byte. -/
  | little
  /-- The most significant byte. -/
  | big
  deriving DecidableEq, Repr

namespace ByteOrder

/-- The byte that announces the order in a container: `<` or `>`. -/
def marker : ByteOrder → UInt8
  | .little => 0x3C
  | .big => 0x3E

def ofMarker? (byte : UInt8) : Option ByteOrder :=
  if byte = marker .little then some .little
  else if byte = marker .big then some .big
  else none

/-- The last `count` bytes of a number, the least significant first. -/
def littleBytes : (count : Nat) → Nat → List UInt8
  | 0, _ => []
  | count + 1, n => .ofNat n :: littleBytes count (n / 256)

/-- The number whose bytes these are, the least significant first. -/
def littleNumber : List UInt8 → Nat
  | [] => 0
  | byte :: bytes => byte.toNat + 256 * littleNumber bytes

/-- The last `count` bytes of a number. -/
def bytes (order : ByteOrder) (count n : Nat) : List UInt8 :=
  match order with
  | .little => littleBytes count n
  | .big => (littleBytes count n).reverse

def number (order : ByteOrder) (bytes : List UInt8) : Nat :=
  match order with
  | .little => littleNumber bytes
  | .big => littleNumber bytes.reverse

/-! ### Writing and reading back -/

@[simp]
theorem length_littleBytes (count n : Nat) : (littleBytes count n).length = count := by
  induction count generalizing n with
  | zero => rfl
  | succ count ih => simp [littleBytes, ih]

@[simp]
theorem length_bytes (order : ByteOrder) (count n : Nat) :
    (order.bytes count n).length = count := by
  cases order <;> simp [bytes]

/-- The last bytes of a number tell the number up to multiples of `256 ^ count`. -/
theorem littleNumber_littleBytes (count n : Nat) :
    littleNumber (littleBytes count n) = n % 256 ^ count := by
  induction count generalizing n with
  | zero => simp [littleBytes, littleNumber, Nat.mod_one]
  | succ count ih =>
    rw [littleBytes, littleNumber, ih, Nat.pow_succ, Nat.mul_comm (256 ^ count) 256,
      Nat.mod_mul]
    rfl

/-- A number is read back modulo what its bytes can hold. -/
theorem number_bytes (order : ByteOrder) (count n : Nat) :
    order.number (order.bytes count n) = n % 256 ^ count := by
  cases order <;> simp [number, bytes, littleNumber_littleBytes]

/-- Bytes are the last bytes of the number that they tell. -/
theorem littleBytes_littleNumber (l : List UInt8) :
    littleBytes l.length (littleNumber l) = l := by
  induction l with
  | nil => rfl
  | cons byte rest ih =>
    have hlt : byte.toNat < 256 := byte.toNat_lt
    have hdiv : (byte.toNat + 256 * littleNumber rest) / 256 = littleNumber rest := by omega
    have hbyte : UInt8.ofNat (byte.toNat + 256 * littleNumber rest) = byte := by
      apply UInt8.toNat_inj.mp
      rw [UInt8.toNat_ofNat']
      omega
    simp only [List.length_cons, littleBytes, littleNumber, hdiv, hbyte, ih]

/-- Bytes are the bytes of the number that they stand for. -/
theorem bytes_number (order : ByteOrder) (l : List UInt8) :
    order.bytes l.length (order.number l) = l := by
  cases order with
  | little => exact littleBytes_littleNumber l
  | big =>
    have h := littleBytes_littleNumber l.reverse
    rw [List.length_reverse] at h
    simp [number, bytes, h]

end ByteOrder

end LabeledBlocks
