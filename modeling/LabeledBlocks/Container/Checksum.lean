/-!
# Checksums

The 32-bit cyclic redundancy check with the reversed polynomial `0xEDB88320`, as a register that
takes in one byte after the other.

* `Checksum.of` is the checksum of a list of bytes.
-/

namespace LabeledBlocks

/-- The register of a running check. -/
abbrev Checksum := UInt32

namespace Checksum

/-- The register before the first byte. -/
def start : Checksum := 0xFFFFFFFF

/-- Moves the register down by one bit, and subtracts the polynomial when a one falls out. -/
def shift (register : Checksum) : Checksum :=
  if register &&& 1 = 1 then (register >>> 1) ^^^ 0xEDB88320 else register >>> 1

def step (register : Checksum) (byte : UInt8) : Checksum :=
  shift (shift (shift (shift (shift (shift (shift (shift (register ^^^ byte.toUInt32))))))))

def update (register : Checksum) (bytes : List UInt8) : Checksum :=
  bytes.foldl step register

def value (register : Checksum) : UInt32 :=
  register ^^^ 0xFFFFFFFF

def of (bytes : List UInt8) : UInt32 :=
  value (update start bytes)

-- The check value of the polynomial is the checksum of the text `123456789`.
example : of [0x31, 0x32, 0x33, 0x34, 0x35, 0x36, 0x37, 0x38, 0x39] = 0xCBF43926 := by
  decide +kernel

end Checksum

end LabeledBlocks
