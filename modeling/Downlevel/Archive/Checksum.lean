/-
# Downlevel.Archive.Checksum — the checksum of an archive's entries

The 32-bit cyclic redundancy check with the reflected polynomial `EDB88320`.
-/
import Downlevel.Bytes

namespace Downlevel.Checksum

set_option autoImplicit false

/-- Divides one bit out. -/
def shift (crc : UInt32) : UInt32 :=
  if crc &&& 1 == 1 then (crc >>> 1) ^^^ 0xEDB88320 else crc >>> 1

def byte (crc : UInt32) (b : UInt8) : UInt32 :=
  Nat.repeat shift 8 (crc ^^^ b.toUInt32)

def crc32 (bytes : Bytes) : UInt32 :=
  bytes.foldl byte 0xFFFFFFFF ^^^ 0xFFFFFFFF

end Downlevel.Checksum
