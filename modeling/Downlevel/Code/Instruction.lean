/-
# Downlevel.Code.Instruction — instructions and their sizes

An instruction is kept in the form that survives moving it. Operands that are not
positions stay bytes; jumps and switches hold absolute code offsets; instructions
that name a constant the library cares about hold its index.

`Shape.ofOpcode?` says how the operands of each opcode are laid out. The size of
an instruction depends on its own offset only through the padding of a switch,
which aligns its operands to a multiple of four.
-/
import Downlevel.Bytes

namespace Downlevel

set_option autoImplicit false

inductive Instruction where
  /-- An instruction whose operand bytes mean the same wherever it stands. -/
  | plain (opcode : UInt8) (operands : Bytes)
  /-- Loads a constant. -/
  | load (opcode : UInt8) (index : UInt16)
  | branch (opcode : UInt8) (target : Nat)
  | tableSwitch (fallback : Nat) (low : Int32) (targets : List Nat)
  | lookupSwitch (fallback : Nat) (pairs : List (Int32 × Nat))
  | call (opcode : UInt8) (index : UInt16)
  | dynamicCall (index : UInt16)
  deriving DecidableEq

/-- An instruction and the offset at which it stands. -/
structure Placed where
  offset : Nat
  instruction : Instruction
  deriving DecidableEq

namespace Opcode

def ldc : UInt8 := 0x12
def tableSwitch : UInt8 := 0xAA
def lookupSwitch : UInt8 := 0xAB
def invokeStatic : UInt8 := 0xB8
def invokeDynamic : UInt8 := 0xBA
def gotoFar : UInt8 := 0xC8
def jsrFar : UInt8 := 0xC9

/-- Whether a branch has a 32-bit displacement. -/
def isFar (opcode : UInt8) : Bool :=
  opcode == gotoFar || opcode == jsrFar

end Opcode

/-- How the operands of an opcode are laid out. -/
inductive Shape where
  | plain (operands : Nat)
  | load
  | loadWide
  | branch
  | branchFar
  | tableSwitch
  | lookupSwitch
  | call
  | dynamicCall
  /-- Widens the operands of the instruction whose opcode follows. -/
  | wide
  deriving DecidableEq

namespace Shape

def ofOpcode? (opcode : UInt8) : Option Shape :=
  let n := opcode.toNat
  if n ≤ 0x0F then some (plain 0)
  else if n = 0x10 then some (plain 1)
  else if n = 0x11 then some (plain 2)
  else if n = 0x12 then some load
  else if n ≤ 0x14 then some loadWide
  else if n ≤ 0x19 then some (plain 1)
  else if n ≤ 0x35 then some (plain 0)
  else if n ≤ 0x3A then some (plain 1)
  else if n ≤ 0x83 then some (plain 0)
  else if n = 0x84 then some (plain 2)
  else if n ≤ 0x98 then some (plain 0)
  else if n ≤ 0xA8 then some branch
  else if n = 0xA9 then some (plain 1)
  else if n = 0xAA then some tableSwitch
  else if n = 0xAB then some lookupSwitch
  else if n ≤ 0xB1 then some (plain 0)
  else if n ≤ 0xB5 then some (plain 2)
  else if n ≤ 0xB8 then some call
  else if n = 0xB9 then some (plain 4)
  else if n = 0xBA then some dynamicCall
  else if n = 0xBB then some (plain 2)
  else if n = 0xBC then some (plain 1)
  else if n = 0xBD then some (plain 2)
  else if n ≤ 0xBF then some (plain 0)
  else if n ≤ 0xC1 then some (plain 2)
  else if n ≤ 0xC3 then some (plain 0)
  else if n = 0xC4 then some wide
  else if n = 0xC5 then some (plain 3)
  else if n ≤ 0xC7 then some branch
  else if n ≤ 0xC9 then some branchFar
  else if n = 0xCA then some (plain 0)
  else if n < 0xFE then none
  else some (plain 0)

/-- The number of bytes after a wide prefix, by the opcode it widens. -/
def wideOperands? (opcode : UInt8) : Option Nat :=
  let n := opcode.toNat
  if n = 0x84 then some 5
  else if 0x15 ≤ n ∧ n ≤ 0x19 then some 3
  else if 0x36 ≤ n ∧ n ≤ 0x3A then some 3
  else if n = 0xA9 then some 3
  else none

end Shape

/-- The bytes between the opcode of a switch at `offset` and its first operand. -/
def switchPadding (offset : Nat) : Nat :=
  (4 - (offset + 1) % 4) % 4

namespace Instruction

def opcode : Instruction → UInt8
  | plain opcode _ => opcode
  | load opcode _ => opcode
  | branch opcode _ => opcode
  | tableSwitch _ _ _ => Opcode.tableSwitch
  | lookupSwitch _ _ => Opcode.lookupSwitch
  | call opcode _ => opcode
  | dynamicCall _ => Opcode.invokeDynamic

/-- The number of bytes the instruction takes at `offset`. -/
def size (offset : Nat) : Instruction → Nat
  | plain _ operands => 1 + operands.length
  | load opcode _ => if opcode == Opcode.ldc then 2 else 3
  | branch opcode _ => if Opcode.isFar opcode then 5 else 3
  | tableSwitch _ _ targets => 1 + switchPadding offset + 12 + 4 * targets.length
  | lookupSwitch _ pairs => 1 + switchPadding offset + 8 + 8 * pairs.length
  | call _ _ => 3
  | dynamicCall _ => 5

end Instruction

end Downlevel
