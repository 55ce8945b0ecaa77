/-
# Downlevel.Code.Layout — where instructions move

Replacing an instruction by a shorter one moves everything behind it, and moving a
switch may change its padding. `layOut` places a list of instructions one after
the other from offset 0 and records where each old offset went; the end of the
code moves like an instruction. `OffsetMap.find?` is defined at the offsets of the
placed instructions and at the old end of the code, and nowhere else.

Offsets are stored in 32 bits, and the largest number of 32 bits marks an offset that
goes nowhere. Here they are natural numbers and such an offset has no entry, which is
the same for code of less than 2³² - 1 bytes: no offset reaches the mark.

`replaceCalls` is the only change that is ever made to a list of instructions: a
dynamic call becomes a static one.
-/
import Std.Data.HashMap
import Downlevel.Code.Instruction
import Downlevel.Malformed

namespace Downlevel

set_option autoImplicit false

/-- Where each old offset went. -/
structure OffsetMap where
  table : Std.HashMap Nat Nat

namespace OffsetMap

def find? (map : OffsetMap) (offset : Nat) : Option Nat :=
  map.table[offset]?

/-- The new offset of an old one that must start an instruction or end the code. -/
def find (map : OffsetMap) (offset : Nat) : Except Malformed Nat :=
  match map.find? offset with
  | some moved => .ok moved
  | none => .error (.badOffset offset)

/-- The new offset of a stored 16-bit one, cut to 16 bits again. -/
def find16 (map : OffsetMap) (offset : UInt16) : Except Malformed UInt16 := do
  return UInt16.ofNat (← map.find offset.toNat)

/-- Places instructions from `position` on; also gives the position after the last. -/
def place : List Placed → Nat → Std.HashMap Nat Nat → Std.HashMap Nat Nat × Nat
  | [], position, table => (table, position)
  | p :: rest, position, table =>
      place rest (position + p.instruction.size position) (table.insert p.offset position)

end OffsetMap

/-- The layout of a list of instructions whose code was `length` bytes long. -/
def layOut (code : List Placed) (length : Nat) : OffsetMap :=
  let (table, stop) := OffsetMap.place code 0 ∅
  ⟨table.insert length stop⟩

namespace Placed

/-- The placed instruction, as a static call of `index` if one is given. -/
def replace (p : Placed) : Option UInt16 → Placed
  | some index => { p with instruction := .call Opcode.invokeStatic index }
  | none => p

end Placed

/-- Turns the instructions for which an index is given into static calls of that index. -/
def replaceCalls (code : List Placed) (calls : List (Option UInt16)) : List Placed :=
  List.zipWith Placed.replace code calls

end Downlevel
