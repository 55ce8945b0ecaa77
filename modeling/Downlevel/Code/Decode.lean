/-
# Downlevel.Code.Decode — decoding a code string

Every byte of a code string either starts an instruction or lies inside one.
`decode` walks the bytes once: at a start it decodes the instruction there and
then passes over as many bytes as the instruction is long.

Displacements become absolute offsets. An offset below zero, or one that does not
fit 32 bits, is refused and blamed on the instruction that holds it. In a switch
the operands must all be present before any of them is judged, and the fallback
is judged last.

The offset of an instruction is stored in 32 bits. Here it is a natural number, and
nothing is cut: what `decode` returns is meant for code of less than 2³² - 1 bytes,
where every offset fits.
-/
import Downlevel.Code.Instruction
import Downlevel.Malformed

namespace Downlevel

set_option autoImplicit false

namespace Instruction

/-- The code string ends inside an instruction, or a switch contradicts itself. -/
def broken : Malformed := .badAttribute "Code"

/-- Reads operands; missing bytes are the fault of the code string. -/
def operands {α : Type} (r : Reader α) (input : Bytes) : Except Malformed (α × Bytes) :=
  match r input with
  | .ok result => .ok result
  | .error _ => .error broken

/-- The absolute offset of a displacement from the instruction at `offset`. -/
def absolute (offset : Nat) (displacement : Int) : Except Malformed Nat :=
  let target := (offset : Int) + displacement
  if 0 ≤ target ∧ target < 4294967296 then .ok target.toNat else .error (.badOffset offset)

def displacement16 (w : UInt16) : Int := w.toInt16.toInt

def displacement32 (w : UInt32) : Int := w.toInt32.toInt

def decodePlain (opcode : UInt8) (count : Nat) (rest : Bytes) : Except Malformed Instruction := do
  let (bytes, _) ← operands (Reader.take count) rest
  return .plain opcode bytes

def decodeWide (offset : Nat) (opcode : UInt8) (rest : Bytes) : Except Malformed Instruction :=
  match rest with
  | [] => .error broken
  | widened :: _ =>
      match Shape.wideOperands? widened with
      | some count => decodePlain opcode count rest
      | none => .error (.badOpcode widened (offset + 1))

def decodeTableSwitch (offset : Nat) (rest : Bytes) : Except Malformed Instruction := do
  let (_, rest) ← operands (Reader.take (switchPadding offset)) rest
  let (fallback, rest) ← operands Reader.u32 rest
  let (low, rest) ← operands Reader.u32 rest
  let (high, rest) ← operands Reader.u32 rest
  if high.toInt32 < low.toInt32 then throw broken
  let count := (displacement32 high - displacement32 low + 1).toNat
  let (words, _) ← operands (Reader.times Reader.u32 count) rest
  let targets ← words.mapM fun w => absolute offset (displacement32 w)
  return .tableSwitch (← absolute offset (displacement32 fallback)) low.toInt32 targets

def readPair : Reader (UInt32 × UInt32) := do
  let key ← Reader.u32
  let displacement ← Reader.u32
  return (key, displacement)

def decodeLookupSwitch (offset : Nat) (rest : Bytes) : Except Malformed Instruction := do
  let (_, rest) ← operands (Reader.take (switchPadding offset)) rest
  let (fallback, rest) ← operands Reader.u32 rest
  let (count, rest) ← operands Reader.u32 rest
  if count.toInt32 < 0 then throw broken
  let (words, _) ← operands (Reader.times readPair count.toNat) rest
  let pairs ← words.mapM fun (key, w) => do
    return (key.toInt32, ← absolute offset (displacement32 w))
  return .lookupSwitch (← absolute offset (displacement32 fallback)) pairs

def decodeShape (offset : Nat) (opcode : UInt8) (rest : Bytes) :
    Shape → Except Malformed Instruction
  | .plain count => decodePlain opcode count rest
  | .load => do
      let (index, _) ← operands Reader.u8 rest
      return .load opcode index.toUInt16
  | .loadWide => do
      let (index, _) ← operands Reader.u16 rest
      return .load opcode index
  | .branch => do
      let (w, _) ← operands Reader.u16 rest
      return .branch opcode (← absolute offset (displacement16 w))
  | .branchFar => do
      let (w, _) ← operands Reader.u32 rest
      return .branch opcode (← absolute offset (displacement32 w))
  | .tableSwitch => decodeTableSwitch offset rest
  | .lookupSwitch => decodeLookupSwitch offset rest
  | .call => do
      let (index, _) ← operands Reader.u16 rest
      return .call opcode index
  | .dynamicCall => do
      let (index, rest) ← operands Reader.u16 rest
      let _ ← operands Reader.u16 rest
      return .dynamicCall index
  | .wide => decodeWide offset opcode rest

/-- Decodes the instruction at `offset` from its opcode and the bytes after it. -/
def decodeAt (offset : Nat) (opcode : UInt8) (rest : Bytes) : Except Malformed Instruction :=
  match Shape.ofOpcode? opcode with
  | some shape => decodeShape offset opcode rest shape
  | none => .error (.badOpcode opcode offset)

end Instruction

/-- Decodes from `offset` on, passing over `skip` bytes first, onto the reversed list of
the instructions decoded before. -/
def decodeOnto : Nat → Nat → List Placed → Bytes → Except Malformed (List Placed)
  | _, _, decoded, [] => .ok decoded.reverse
  | skip + 1, offset, decoded, _ :: rest => decodeOnto skip (offset + 1) decoded rest
  | 0, offset, decoded, opcode :: rest =>
      match Instruction.decodeAt offset opcode rest with
      | .ok instruction =>
          decodeOnto (instruction.size offset - 1) (offset + 1) (⟨offset, instruction⟩ :: decoded)
            rest
      | .error e => .error e

/-- The instructions of a code string, each with its offset. -/
def decode (code : Bytes) : Except Malformed (List Placed) :=
  decodeOnto 0 0 [] code

end Downlevel
