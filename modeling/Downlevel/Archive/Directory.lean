/-
# Downlevel.Archive.Directory — the table of contents of an archive

The directory is a row of headers. End records are tried from the back of the file; the
first that leads to a complete directory is taken. Reading the directory looks at nothing
else: whether an entry's bytes can be found shows only when the entry is read.
-/
import Downlevel.Archive.EndRecord
import Downlevel.Archive.ExtraField

namespace Downlevel.Archive

set_option autoImplicit false

/-- One entry of an archive. -/
structure Entry where
  name : String
  encrypted : Bool
  method : Nat
  checksum : UInt32
  /-- The number of bytes of the contents, as declared. -/
  size : Nat
  /-- The number of bytes that are stored for the entry. -/
  storedSize : Nat
  /-- The position of the local header. -/
  header : Nat
  /-- Where the stored bytes start, once that is known. -/
  start : Option Nat
  deriving DecidableEq

/-- The entry of a header, which stands `shift` bytes behind its stated position. -/
def Header.toEntry (header : Header) (shift : Nat) : Option Entry :=
  if header.offset + shift < positionLimit then
    some
      { name := header.name
        encrypted := header.encrypted || header.cipherKnown
        method := header.method
        checksum := header.checksum
        size := header.size
        storedSize := header.storedSize
        header := header.offset + shift
        start := none }
  else none

/-- Reads the entry whose directory header is at `position`. Also gives the position after
the header. -/
def readEntry (data : Array UInt8) (shift position : Nat) : Option (Entry × Nat) := do
  let (header, extra, next) ← readHeader data position
  let entry ← (← header.amend extra).toEntry shift
  return (entry, next)

/-- Reads `n` entries onto the reversed list of those read before. -/
def readEntries (data : Array UInt8) (shift : Nat) : Nat → Nat → List Entry → Option (List Entry)
  | 0, _, entries => some entries.reverse
  | n + 1, position, entries =>
      match readEntry data shift position with
      | some (entry, next) => readEntries data shift n next (entry :: entries)
      | none => none

/-- The directory that the end record at `position` leads to. -/
def readFromEnd (data : Array UInt8) (position : Nat) : Option (List Entry) := do
  let extent ← extent? data position
  readEntries data extent.shift extent.count extent.start []

/-- Tries end records at the positions below `n`, from the back. -/
def searchEnd (data : Array UInt8) : Nat → Option (List Entry)
  | 0 => none
  | n + 1 =>
      match readFromEnd data n with
      | some entries => some entries
      | none => searchEnd data n

/-- The entries of an archive; nothing if the file is no archive. -/
def directory? (bytes : Bytes) : Option (List Entry) :=
  let data := bytes.toArray
  searchEnd data data.size

end Downlevel.Archive
