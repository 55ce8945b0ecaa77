/-
# Downlevel.Code.Assemble — encoding instructions at their new places

`assemble` lays a list of instructions out and encodes each at its new place.
Displacements are taken between new offsets. Padding, and the two bytes after the
index of a dynamic call, are written as zeros.

It stops at the first target, in the order of the instructions and with the
fallback of a switch before its other targets, that starts no instruction or lies
too far away for its field.
-/
import Downlevel.Code.Layout

namespace Downlevel

set_option autoImplicit false

inductive AssembleError where
  /-- A target that starts no instruction. -/
  | stray (e : Malformed)
  /-- The branch or switch at this old offset cannot reach a target. -/
  | outOfRange (offset : Nat)
  deriving DecidableEq

namespace Placed

/-- The distance from `position` to where `target` went. -/
def distance (map : OffsetMap) (position target : Nat) : Except AssembleError Int :=
  match map.find target with
  | .ok moved => .ok ((moved : Int) - (position : Int))
  | .error e => .error (.stray e)

/-- A 16-bit displacement. -/
def near (map : OffsetMap) (position offset target : Nat) : Except AssembleError Bytes := do
  let d ← distance map position target
  if -32768 ≤ d ∧ d < 32768 then return be16 (Int16.ofInt d).toUInt16
  else throw (.outOfRange offset)

/-- A 32-bit displacement. -/
def far (map : OffsetMap) (position offset target : Nat) : Except AssembleError Bytes := do
  let d ← distance map position target
  if -2147483648 ≤ d ∧ d < 2147483648 then return be32 (Int32.ofInt d).toUInt32
  else throw (.outOfRange offset)

/-- The largest key of a table switch. -/
def high (low : Int32) (count : Nat) : Int32 :=
  Int32.ofInt (low.toInt + count - 1)

def padding (position : Nat) : Bytes :=
  List.replicate (switchPadding position) 0

/-- The bytes of an instruction that now stands at `position`. -/
def encode (map : OffsetMap) (position : Nat) (p : Placed) : Except AssembleError Bytes :=
  match p.instruction with
  | .plain opcode operands => return opcode :: operands
  | .load opcode index =>
      return opcode :: (if opcode == Opcode.ldc then [index.toUInt8] else be16 index)
  | .branch opcode target => do
      if Opcode.isFar opcode then return opcode :: (← far map position p.offset target)
      else return opcode :: (← near map position p.offset target)
  | .tableSwitch fallback low targets => do
      let first ← far map position p.offset fallback
      let others ← targets.mapM (far map position p.offset)
      return Opcode.tableSwitch :: (padding position ++ (first ++ (be32 low.toUInt32 ++
        (be32 (high low targets.length).toUInt32 ++ others.flatten))))
  | .lookupSwitch fallback pairs => do
      let first ← far map position p.offset fallback
      let others ← pairs.mapM fun (key, target) => do
        return be32 key.toUInt32 ++ (← far map position p.offset target)
      return Opcode.lookupSwitch :: (padding position ++ (first ++
        (be32 (UInt32.ofNat pairs.length) ++ others.flatten)))
  | .call opcode index => return opcode :: be16 index
  | .dynamicCall index => return Opcode.invokeDynamic :: (be16 index ++ [0, 0])

end Placed

/-- Encodes instructions from `position` on, onto the reversed pieces encoded before. -/
def encodeOnto (map : OffsetMap) : Nat → List Bytes → List Placed → Except AssembleError Bytes
  | _, pieces, [] => .ok pieces.reverse.flatten
  | position, pieces, p :: rest =>
      match p.encode map position with
      | .ok bytes => encodeOnto map (position + bytes.length) (bytes :: pieces) rest
      | .error e => .error e

/-- The new code string of a list of instructions whose code was `length` bytes long, and
where each offset went. -/
def assemble (code : List Placed) (length : Nat) : Except AssembleError (Bytes × OffsetMap) :=
  let map := layOut code length
  match encodeOnto map 0 [] code with
  | .ok bytes => .ok (bytes, map)
  | .error e => .error e

end Downlevel
