/-
# Downlevel.Code.Frames — stack map frames

A stack map table describes the types of locals and stack at chosen offsets. The
first frame's offset is stored as it is; every later one as the distance from the
frame before it, less one. Here a frame carries its absolute offset, so moving the
table is moving each frame on its own.

Frames are written in their shortest form: a frame that keeps the locals and has at
most one stack item takes no separate delta when the delta is below 64.
-/
import Downlevel.Code.Body
import Downlevel.Code.Layout

namespace Downlevel

set_option autoImplicit false

inductive VerificationType where
  | top
  | integer
  | float
  | double
  | long
  | null
  | uninitializedThis
  | object (index : UInt16)
  /-- An object that the instruction at the offset creates. -/
  | uninitialized (offset : UInt16)
  deriving DecidableEq

inductive FrameKind where
  | same
  | sameWithItem (item : VerificationType)
  | chop (count : UInt8)
  | append (locals : List VerificationType)
  | full (locals stack : List VerificationType)
  deriving DecidableEq

structure Frame where
  offset : Nat
  kind : FrameKind
  deriving DecidableEq

/-! ## Reading -/

open Reader in
def VerificationType.read : Reader VerificationType := do
  match ← u8 with
  | 0 => return .top
  | 1 => return .integer
  | 2 => return .float
  | 3 => return .double
  | 4 => return .long
  | 5 => return .null
  | 6 => return .uninitializedThis
  | 7 => return .object (← u16)
  | 8 => return .uninitialized (← u16)
  | tag => Reader.fail (.unknownTag tag)

namespace Frame

open Reader

/-- Reads a frame with its delta. -/
def readDelta : Reader (UInt16 × FrameKind) := do
  let tag ← u8
  let n := tag.toNat
  if n ≤ 63 then return (tag.toUInt16, .same)
  else if n ≤ 127 then
    let item ← VerificationType.read
    return ((tag - 64).toUInt16, .sameWithItem item)
  else if n < 247 then Reader.fail (.unknownTag tag)
  else
    let delta ← u16
    if n = 247 then return (delta, .sameWithItem (← VerificationType.read))
    else if n ≤ 250 then return (delta, .chop (251 - tag))
    else if n = 251 then return (delta, .same)
    else if n ≤ 254 then
      return (delta, .append (← Reader.times VerificationType.read (n - 251)))
    else
      let locals ← Reader.table VerificationType.read
      let stack ← Reader.table VerificationType.read
      return (delta, .full locals stack)

/-- The offset of a frame, from the offset of the frame before it. -/
def offsetAfter (previous : Option Nat) (delta : Nat) : Nat :=
  match previous with
  | none => delta
  | some offset => offset + delta + 1

/-- Reads `n` frames onto the reversed list of those read before. -/
def readOnto : Nat → Option Nat → List Frame → Reader (List Frame)
  | 0, _, frames, input => .ok (frames.reverse, input)
  | n + 1, previous, frames, input =>
      match readDelta input with
      | .ok ((delta, kind), rest) =>
          let offset := offsetAfter previous delta.toNat
          readOnto n (some offset) (⟨offset, kind⟩ :: frames) rest
      | .error fault => .error fault

def readTable : Reader (List Frame) := do
  readOnto (← u16).toNat none []

end Frame

/-! ## Writing -/

def VerificationType.write : VerificationType → Bytes
  | .top => [0]
  | .integer => [1]
  | .float => [2]
  | .double => [3]
  | .long => [4]
  | .null => [5]
  | .uninitializedThis => [6]
  | .object index => 7 :: be16 index
  | .uninitialized offset => 8 :: be16 offset

namespace FrameKind

/-- Writes a frame with its delta. -/
def write (delta : UInt16) : FrameKind → Bytes
  | same => if delta.toNat ≤ 63 then [delta.toUInt8] else 251 :: be16 delta
  | sameWithItem item =>
      if delta.toNat ≤ 63 then (64 + delta.toUInt8) :: item.write
      else 247 :: (be16 delta ++ item.write)
  | chop count => (251 - count) :: be16 delta
  | append locals =>
      (251 + UInt8.ofNat locals.length) :: (be16 delta ++ locals.flatMap VerificationType.write)
  | full locals stack =>
      255 :: (be16 delta ++ (writeTable VerificationType.write locals ++
        writeTable VerificationType.write stack))

end FrameKind

namespace Frame

/-- The stored delta of a frame, from the offset of the frame before it. -/
def deltaAfter (previous : Option Nat) (offset : Nat) : UInt16 :=
  match previous with
  | none => UInt16.ofNat offset
  | some before => UInt16.ofNat (offset - before - 1)

/-- Writes frames onto the reversed pieces written before. -/
def writeOnto : Option Nat → List Bytes → List Frame → Bytes
  | _, pieces, [] => pieces.reverse.flatten
  | previous, pieces, frame :: rest =>
      writeOnto (some frame.offset) (frame.kind.write (deltaAfter previous frame.offset) :: pieces)
        rest

def writeAll (frames : List Frame) : Bytes :=
  be16 (UInt16.ofNat frames.length) ++ writeOnto none [] frames

end Frame

/-! ## Moving -/

def VerificationType.relocate (map : OffsetMap) :
    VerificationType → Except Malformed VerificationType
  | .uninitialized offset => return .uninitialized (← map.find16 offset)
  | type => return type

def FrameKind.relocate (map : OffsetMap) : FrameKind → Except Malformed FrameKind
  | .same => return .same
  | .sameWithItem item => return .sameWithItem (← item.relocate map)
  | .chop count => return .chop count
  | .append locals => return .append (← locals.mapM (VerificationType.relocate map))
  | .full locals stack => do
      let locals ← locals.mapM (VerificationType.relocate map)
      let stack ← stack.mapM (VerificationType.relocate map)
      return .full locals stack

def Frame.relocate (map : OffsetMap) (frame : Frame) : Except Malformed Frame := do
  let offset ← map.find frame.offset
  return ⟨offset, ← frame.kind.relocate map⟩

namespace Frame

def attributeName : String := "StackMapTable"

/-- Moves a whole stack map table. -/
def relocateTable (map : OffsetMap) (info : Bytes) : Except Malformed Bytes := do
  let frames ← readAttribute attributeName readTable info
  return writeAll (← frames.mapM (relocate map))

end Frame

end Downlevel
