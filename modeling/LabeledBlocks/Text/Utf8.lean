/-!
# UTF-8

Texts as bytes. Every character has exactly one encoding, the shortest, and surrogates have
none.

* `encode` gives the bytes of a text.
* `decode` gives back the text, or says where the first fault lies: after how many well-formed
  bytes, and how long the malformed sequence there is.
-/

namespace LabeledBlocks.Utf8

/-- The first place where bytes are not the encoding of a text. -/
structure Fault where
  /-- How many bytes before the fault encode whole characters. -/
  validLength : Nat
  /-- Length of the longest start of a character found there, at least one; none when the bytes
  end inside a character. -/
  faultLength : Option Nat
  deriving DecidableEq, Repr

def encodeChar (c : Char) : List UInt8 :=
  let n := c.toNat
  if n < 0x80 then [.ofNat n]
  else if n < 0x800 then [.ofNat (0xC0 + n / 64), .ofNat (0x80 + n % 64)]
  else if n < 0x10000 then
    [.ofNat (0xE0 + n / 4096), .ofNat (0x80 + n / 64 % 64), .ofNat (0x80 + n % 64)]
  else
    [.ofNat (0xF0 + n / 262144), .ofNat (0x80 + n / 4096 % 64), .ofNat (0x80 + n / 64 % 64),
      .ofNat (0x80 + n % 64)]

def encode (text : String) : List UInt8 :=
  text.toList.flatMap encodeChar

/-- May the byte stand after the first of a character? -/
def isTail (b : UInt8) : Bool :=
  0x80 ≤ b.toNat && b.toNat < 0xC0

/-- The six bits that a byte after the first carries. -/
def tailBits (b : UInt8) : Nat :=
  b.toNat - 0x80

/-- May `b` be the second byte of a character of three or four bytes that starts with `lead`?
Narrower than `isTail` where the rest would be too long a form, a surrogate or too large. -/
def isSecond (lead b : UInt8) : Bool :=
  let least := if lead.toNat = 0xE0 then 0xA0 else if lead.toNat = 0xF0 then 0x90 else 0x80
  let bound := if lead.toNat = 0xED then 0xA0 else if lead.toNat = 0xF4 then 0x90 else 0xC0
  least ≤ b.toNat && b.toNat < bound

def malformed (start length : Nat) : Except Fault (List Char) :=
  .error ⟨start, some length⟩

/-- The fault of bytes that end inside the character at position `start`. -/
def incomplete (start : Nat) : Except Fault (List Char) :=
  .error ⟨start, none⟩

/-- The characters that `bytes` encode, when `start` bytes before them have been decoded. -/
def decodeFrom (start : Nat) : List UInt8 → Except Fault (List Char)
  | [] => .ok []
  | a :: r₁ =>
    if a.toNat < 0x80 then
      (decodeFrom (start + 1) r₁).map (Char.ofNat a.toNat :: ·)
    else if a.toNat < 0xC2 then malformed start 1
    else if a.toNat < 0xE0 then
      match r₁ with
      | [] => incomplete start
      | b :: r₂ =>
        if isTail b then
          (decodeFrom (start + 2) r₂).map
            (Char.ofNat ((a.toNat - 0xC0) * 64 + tailBits b) :: ·)
        else malformed start 1
    else if a.toNat < 0xF0 then
      match r₁ with
      | [] => incomplete start
      | b :: r₂ =>
        if isSecond a b then
          match r₂ with
          | [] => incomplete start
          | c :: r₃ =>
            if isTail c then
              (decodeFrom (start + 3) r₃).map
                (Char.ofNat ((a.toNat - 0xE0) * 4096 + tailBits b * 64 + tailBits c) :: ·)
            else malformed start 2
        else malformed start 1
    else if a.toNat < 0xF5 then
      match r₁ with
      | [] => incomplete start
      | b :: r₂ =>
        if isSecond a b then
          match r₂ with
          | [] => incomplete start
          | c :: r₃ =>
            if isTail c then
              match r₃ with
              | [] => incomplete start
              | d :: r₄ =>
                if isTail d then
                  (decodeFrom (start + 4) r₄).map
                    (Char.ofNat ((a.toNat - 0xF0) * 262144 + tailBits b * 4096
                      + tailBits c * 64 + tailBits d) :: ·)
                else malformed start 3
            else malformed start 2
        else malformed start 1
    else malformed start 1

/-- The text that the bytes encode, or the first fault in them. -/
def decode (bytes : List UInt8) : Except Fault String :=
  (decodeFrom 0 bytes).map String.ofList

def Fault.message (fault : Fault) : String :=
  match fault.faultLength with
  | some length => s!"invalid utf-8 sequence of {length} bytes from index {fault.validLength}"
  | none => s!"incomplete utf-8 byte sequence from index {fault.validLength}"

end LabeledBlocks.Utf8
