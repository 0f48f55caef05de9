/-!
# Checksums

The 32-bit cyclic redundancy check with the reflected polynomial `0xedb88320`,
bit by bit.
-/

namespace ExactRoots.Checksum

/-- Divide one bit out of the remainder. -/
def shiftBit (crc : UInt32) : UInt32 :=
  if crc &&& 1 == 1 then (crc >>> 1) ^^^ 0xedb88320 else crc >>> 1

/-- Take one octet into the remainder. -/
def feed (crc : UInt32) (octet : UInt8) : UInt32 :=
  Nat.repeat shiftBit 8 (crc ^^^ octet.toUInt32)

/-- The checksum of a sequence of octets. -/
def ofOctets (octets : List UInt8) : UInt32 :=
  octets.foldl feed 0xffffffff ^^^ 0xffffffff

/-- The checksum of a text in its eight-bit encoding. -/
def ofText (text : String) : UInt32 :=
  ofOctets text.toUTF8.toList

end ExactRoots.Checksum
