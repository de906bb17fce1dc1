import LabeledBlocks.Container.ByteOrder
import LabeledBlocks.Container.Error

/-!
# Container headers

Fourteen bytes stand in front of every container: the magic bytes, the marker of the byte order,
the version of the format (four bytes), the kind of the container (one byte) and the flags (four
bytes). Every number from the version on is in the order that the marker announces.

* `Header.bytes` writes a header, `Header.parse` reads one.
* `Header.check` decides whether the container behind it can be read.
-/

namespace LabeledBlocks

namespace ContainerKind

def byte : ContainerKind → UInt8
  | .map => 0
  | .block => 1
  | .labels => 2

def ofByte? (byte : UInt8) : Option ContainerKind :=
  if byte = 0 then some .map
  else if byte = 1 then some .block
  else if byte = 2 then some .labels
  else none

end ContainerKind

/-- What stands in front of a container. -/
structure Header where
  order : ByteOrder
  version : UInt32
  kind : ContainerKind
  flags : UInt32
  deriving DecidableEq, Repr

namespace Header

def length : Nat := 14

/-- The flag of maps whose blocks may have different property names. -/
def mixedFlag : UInt32 := 1

/-- The flag of containers that end with a checksum. -/
def checksumFlag : UInt32 := 2

def ofFlags (order : ByteOrder) (kind : ContainerKind) (flags : UInt32) : Header :=
  { order, version := formatVersion, kind, flags }

def of (order : ByteOrder) (kind : ContainerKind) (checksum mixedProperties : Bool) : Header :=
  ofFlags order kind
    ((if mixedProperties then mixedFlag else 0) ||| (if checksum then checksumFlag else 0))

def hasChecksum (header : Header) : Bool :=
  header.flags &&& checksumFlag ≠ 0

/-- May the blocks of the map have different property names? -/
def mixedProperties (header : Header) : Bool :=
  header.flags &&& mixedFlag ≠ 0

def bytes (header : Header) : List UInt8 :=
  magicBytes ++ [header.order.marker] ++ header.order.bytes 4 header.version.toNat
    ++ [header.kind.byte] ++ header.order.bytes 4 header.flags.toNat

/-- The header that fourteen bytes are. Whether the version and the flags are known is not
looked at. -/
def parse : List UInt8 → Except HeaderFault Header
  | [m₀, m₁, m₂, m₃, marker, v₀, v₁, v₂, v₃, kind, f₀, f₁, f₂, f₃] =>
    if [m₀, m₁, m₂, m₃] ≠ magicBytes then .error (.magic [m₀, m₁, m₂, m₃])
    else
      match ByteOrder.ofMarker? marker with
      | none => .error (.marker marker)
      | some order =>
        match ContainerKind.ofByte? kind with
        | none => .error (.kind kind)
        | some kind =>
          .ok {
            order
            version := .ofNat (order.number [v₀, v₁, v₂, v₃])
            kind
            flags := .ofNat (order.number [f₀, f₁, f₂, f₃]) }
  | _ => .error .truncated

/-- Refuses versions and flags that are not known. -/
def validate (header : Header) : Except ContainerError Unit :=
  let unknown := header.flags &&& ~~~(mixedFlag ||| checksumFlag)
  if header.version > formatVersion then .error (.unsupportedVersion header.version)
  else if header.version = 0 then .error (.corruptHeader .versionZero)
  else if unknown ≠ 0 then .error (.corruptHeader (.flags unknown))
  else .ok ()

/-- Refuses the header of a container that is not of this kind, or can not be read at all. -/
def check (header : Header) (kind : ContainerKind) : Except ContainerError Unit := do
  header.validate
  if header.kind ≠ kind then
    throw (.content (.malformed (.kind kind header.kind)))

end Header

end LabeledBlocks
