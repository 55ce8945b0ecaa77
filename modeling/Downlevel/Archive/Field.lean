/-
# Downlevel.Archive.Field — numbers and marks in an archive

An archive is read at positions that other parts of it state, so a field is looked up by
its position and may lie outside the file. Numbers are stored with their least
significant byte first. Each kind of record starts with a signature of its own.
-/
import Downlevel.Bytes

namespace Downlevel.Archive

set_option autoImplicit false

/-! ## Numbers -/

def byteAt (data : Array UInt8) (position : Nat) : Option Nat :=
  data[position]?.map UInt8.toNat

/-- A number of two bytes. -/
def short (data : Array UInt8) (position : Nat) : Option Nat := do
  return (← byteAt data position) + 256 * (← byteAt data (position + 1))

/-- A number of four bytes. -/
def long (data : Array UInt8) (position : Nat) : Option Nat := do
  return (← short data position) + 65536 * (← short data (position + 2))

/-- A number of eight bytes. -/
def wide (data : Array UInt8) (position : Nat) : Option Nat := do
  return (← long data position) + 4294967296 * (← long data (position + 4))

/-- The greatest number of two bytes; as a count it refers to a wider record. -/
def shortLimit : Nat := 0xFFFF

/-- The greatest number of four bytes; as a size or an offset it refers to a wider field. -/
def longLimit : Nat := 0xFFFFFFFF

/-- A run of bytes that lies inside the file. -/
def slice? (data : Array UInt8) (start length : Nat) : Option Bytes :=
  if start + length ≤ data.size then some (data.extract start (start + length)).toList else none

/-! ## Signatures -/

def localSignature : Nat := 0x04034B50
def directorySignature : Nat := 0x02014B50
def endSignature : Nat := 0x06054B50
def wideEndSignature : Nat := 0x06064B50
def locatorSignature : Nat := 0x07064B50

def signed (data : Array UInt8) (signature position : Nat) : Bool :=
  long data position == some signature

/-- The first position from `position` on that passes the test, looking at `count` positions. -/
def seek (test : Nat → Bool) : Nat → Nat → Option Nat
  | 0, _ => none
  | count + 1, position => if test position then some position else seek test count (position + 1)

end Downlevel.Archive
