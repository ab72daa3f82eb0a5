import TypedModel.Text.Hex

/-!
# Cyclic redundancy checksum

The 32-bit checksum of IEEE 802.3, bit by bit: octets enter least significant
bit first, the register starts and ends inverted. It is written as `crc32:` and
eight lower-case hexadecimal digits.
-/

namespace TypedModel.Checksum

/-- One bit of the register: a shift to the right, and the reflected polynomial
when a one falls out. -/
def crcBit (register : UInt32) : UInt32 :=
  if register &&& 1 = 1 then (register >>> 1) ^^^ 0xEDB88320 else register >>> 1

/-- One octet taken into the register. -/
def crcOctet (register : UInt32) (octet : UInt8) : UInt32 :=
  Nat.repeat crcBit 8 (register ^^^ octet.toUInt32)

/-- The checksum of a list of octets. -/
def crc32 (octets : List UInt8) : UInt32 :=
  octets.foldl crcOctet 0xFFFFFFFF ^^^ 0xFFFFFFFF

/-- Written form of a checksum. -/
def render (checksum : UInt32) : String :=
  "crc32:" ++ String.ofList (Text.hexDigits 8 checksum.toNat)

/-- Written checksum of the UTF-8 octets of a text. -/
def ofText (text : String) : String := render (crc32 text.toUTF8.toList)

end TypedModel.Checksum
