/-
# Downlevel.Archive.Header — what an archive says of an entry

The directory of an archive has a header for each entry, with its name, its sizes and the
position of a second, local header in front of the stored bytes. The local header is
needed only for its own length: the bytes start behind it (`dataStart`).
-/
import Downlevel.Archive.CodePage
import Downlevel.Archive.Field
import Downlevel.Text.Lenient

namespace Downlevel.Archive

set_option autoImplicit false

structure Header where
  /-- The name as bytes, before it is taken as text. -/
  nameBytes : Bytes
  name : String
  comment : String
  encrypted : Bool
  /-- Whether the header says which cipher was used. -/
  cipherKnown : Bool
  method : Nat
  checksum : UInt32
  /-- The number of bytes of the contents. -/
  size : Nat
  /-- The number of bytes that are stored for the entry. -/
  storedSize : Nat
  /-- The position of the local header, as stated. -/
  offset : Nat

/-- The method that stands for encrypted data and says nothing of how it is compressed. -/
def cipherMethod : Nat := 99

/-- Text of a header; bit 11 of the flags marks UTF-8. -/
def headerText (flags : Nat) (bytes : Bytes) : String :=
  if flags.testBit 11 then Lenient.text bytes else CodePage.text bytes

/-- Reads the directory header at `position`. Also gives its extra fields and the position
after it. -/
def readHeader (data : Array UInt8) (position : Nat) : Option (Header × Bytes × Nat) := do
  guard (signed data directorySignature position)
  let flags ← short data (position + 8)
  let method ← short data (position + 10)
  let checksum ← long data (position + 16)
  let storedSize ← long data (position + 20)
  let size ← long data (position + 24)
  let nameLength ← short data (position + 28)
  let extraLength ← short data (position + 30)
  let commentLength ← short data (position + 32)
  let offset ← long data (position + 42)
  let name ← slice? data (position + 46) nameLength
  let extra ← slice? data (position + 46 + nameLength) extraLength
  let comment ← slice? data (position + 46 + nameLength + extraLength) commentLength
  return (
    { nameBytes := name
      name := headerText flags name
      comment := headerText flags comment
      encrypted := flags.testBit 0
      cipherKnown := false
      method := method
      checksum := UInt32.ofNat checksum
      size := size
      storedSize := storedSize
      offset := offset },
    extra, position + 46 + nameLength + extraLength + commentLength)

/-- Where the stored bytes of an entry start, from the position of its local header. -/
def dataStart (data : Array UInt8) (position : Nat) : Option Nat := do
  guard (signed data localSignature position)
  let nameLength ← short data (position + 26)
  let extraLength ← short data (position + 28)
  return position + 30 + nameLength + extraLength

end Downlevel.Archive
