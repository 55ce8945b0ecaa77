/-
# Downlevel.Archive.EndRecord — where the directory of an archive is

An archive ends with an end record, which says where the directory starts and how many
headers it has. Bytes may stand in front of the archive, so the stated offsets count from
wherever the archive really begins: the first directory header at or after the stated
offset fixes how far everything is shifted. An empty directory ends where its end record
starts.

Counts and offsets that are too large for the end record stand in a wide end record; a
locator just before the end record says where that one is.
-/
import Downlevel.Archive.Field

namespace Downlevel.Archive

set_option autoImplicit false

/-- Where a directory lies. -/
structure Extent where
  start : Nat
  /-- How far stated offsets are off. -/
  shift : Nat
  count : Nat
  deriving DecidableEq

/-- Every position in a file is below this: positions are numbers of eight bytes. -/
def positionLimit : Nat := 0x10000000000000000

/-- The first wide end record from `stated` on that fits its locator. It reaches up to the
locator, names the same disk, and lies behind the headers it counts. -/
def wideRecord? (data : Array UInt8) (locator disk stated : Nat) : Option Nat :=
  seek (fun position =>
      (do
        guard (signed data wideEndSignature position)
        let length ← wide data (position + 4)
        guard (44 ≤ length ∧ position + 12 + length = locator)
        guard ((← long data (position + 20)) = disk)
        let count ← wide data (position + 32)
        let offset ← wide data (position + 48)
        guard (count * 46 + offset ≤ position) : Option Unit).isSome)
    (locator - stated) stated

/-- The directory that the locator at `locator` leads to. -/
def wideExtent (data : Array UInt8) (locator : Nat) : Option Extent := do
  let disk ← long data (locator + 4)
  let stated ← wide data (locator + 8)
  guard (stated < locator)
  guard ((← long data (locator + 16)) ≤ 1)
  let position ← wideRecord? data locator disk stated
  let madeBy ← short data (position + 12)
  let needed ← short data (position + 14)
  let onDisk ← wide data (position + 24)
  let count ← wide data (position + 32)
  let offset ← wide data (position + 48)
  guard (onDisk ≤ count ∧ needed ≤ madeBy)
  guard ((← long data (position + 16)) = disk)
  guard (offset + (position - stated) < positionLimit)
  return ⟨offset + (position - stated), position - stated, count⟩

/-- The directory that the end record at `position` states by itself. -/
def plainExtent (data : Array UInt8) (position : Nat) : Option Extent := do
  let disk ← short data (position + 4)
  let directoryDisk ← short data (position + 6)
  let onDisk ← short data (position + 8)
  let count ← short data (position + 10)
  let offset ← long data (position + 16)
  guard (disk = directoryDisk)
  if count = 0 then return ⟨max offset position, position - offset, onDisk⟩
  guard (offset < position)
  let start ← seek (signed data directorySignature) (position - offset) offset
  return ⟨start, start - offset, onDisk⟩

/-- The locator before the end record at `position`, if the record refers to a wide one. -/
def locator? (data : Array UInt8) (position : Nat) : Option Nat := do
  let count ← short data (position + 10)
  let offset ← long data (position + 16)
  guard (count = shortLimit ∨ offset = longLimit)
  guard (20 ≤ position ∧ signed data locatorSignature (position - 20))
  return position - 20

/-- The directory that the end record at `position` leads to. -/
def extent? (data : Array UInt8) (position : Nat) : Option Extent := do
  guard (signed data endSignature position)
  let commentLength ← short data (position + 20)
  guard (position + 22 + commentLength ≤ data.size)
  match locator? data position with
  | some locator => wideExtent data locator
  | none => plainExtent data position

end Downlevel.Archive
