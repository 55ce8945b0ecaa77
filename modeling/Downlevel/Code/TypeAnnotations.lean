/-
# Downlevel.Code.TypeAnnotations — annotations on types used in code

Each annotation names its target, a path into the target's type, and the
annotation proper. Only the target can hold code offsets; the rest is copied. The
copying readers below return exactly the bytes they consume.

Reading and moving go hand in hand, one annotation after the other. So if one
annotation names a stray offset and a later one is broken, the stray offset is
what is reported, and the other way round.
-/
import Downlevel.Code.Body
import Downlevel.Code.Layout

namespace Downlevel

set_option autoImplicit false

namespace TypeAnnotation

open Reader

/-! ## Copying -/

/-- Copies a 16-bit count and that many items. -/
def copyTable (item : Reader Bytes) : Reader Bytes := do
  let count ← u16
  let items ← Reader.times item count.toNat
  return be16 count ++ items.flatten

/-- Copies a pair of an element's name and its value. -/
def copyPair (value : Reader Bytes) : Reader Bytes := do
  let name ← Reader.take 2
  return name ++ (← value)

/-- Copies an annotation proper whose element values are copied by `value`. -/
def copyProper (value : Reader Bytes) : Reader Bytes := do
  let type ← Reader.take 2
  return type ++ (← copyTable (copyPair value))

/-- How an element value goes on after its tag. -/
inductive ValueShape where
  /-- A constant's index. -/
  | constant
  /-- An enumeration constant: two indices. -/
  | enumeration
  /-- An annotation of its own. -/
  | nested
  | array
  deriving DecidableEq

def ValueShape.ofTag? (tag : UInt8) : Option ValueShape :=
  let c := Char.ofNat tag.toNat
  if "BCDFIJSZsc".toList.contains c then some .constant
  else if c = 'e' then some .enumeration
  else if c = '@' then some .nested
  else if c = '[' then some .array
  else none

/-- Copies an element value nested at most `depth` deep. Each level takes a tag byte, so
the length of the input bounds the depth. -/
def copyValue : Nat → Reader Bytes
  | 0 => Reader.fail .truncated
  | depth + 1 => do
      let tag ← u8
      match ValueShape.ofTag? tag with
      | some .constant => return tag :: (← Reader.take 2)
      | some .enumeration => return tag :: (← Reader.take 4)
      | some .nested => return tag :: (← copyProper (copyValue depth))
      | some .array => return tag :: (← copyTable (copyValue depth))
      | none => Reader.fail (.unknownTag tag)

/-- Copies the path into a type. -/
def copyPath : Reader Bytes := do
  let count ← u8
  return count :: (← Reader.take (2 * count.toNat))

/-! ## Targets -/

/-- How a target goes on after its tag. -/
inductive TargetShape where
  /-- Ranges of local variables. -/
  | ranges
  /-- One code offset. -/
  | offset
  /-- One code offset and the number of a type argument. -/
  | argument
  /-- Bytes that hold no code offset. -/
  | fixed (count : Nat)
  deriving DecidableEq

def TargetShape.ofTag? (tag : UInt8) : Option TargetShape :=
  let n := tag.toNat
  if n ≤ 0x01 then some (.fixed 1)
  else if n < 0x10 then none
  else if n ≤ 0x12 then some (.fixed 2)
  else if n ≤ 0x15 then some (.fixed 0)
  else if n = 0x16 then some (.fixed 1)
  else if n = 0x17 then some (.fixed 2)
  else if n < 0x40 then none
  else if n ≤ 0x41 then some .ranges
  else if n = 0x42 then some (.fixed 2)
  else if n ≤ 0x46 then some .offset
  else if n ≤ 0x4B then some .argument
  else none

/-! ## Moving -/

/-- Takes input off the front and gives the moved bytes. -/
abbrev Relocator (α : Type) : Type := StateT Bytes (Except Malformed) α

/-- Reads without moving; a fault is blamed on the attribute. -/
def reading {α : Type} (name : String) (r : Reader α) : Relocator α := fun input =>
  match r input with
  | .ok result => .ok result
  | .error _ => .error (.badAttribute name)

/-- Moves one range of a local variable: start, length and slot. -/
def relocateRange (name : String) (map : OffsetMap) : Relocator Bytes := do
  let start ← reading name u16
  let length ← reading name u16
  let slot ← reading name u16
  let movedStart ← map.find start.toNat
  let movedStop ← map.find (start.toNat + length.toNat)
  return be16 (UInt16.ofNat movedStart) ++
    (be16 (UInt16.ofNat (movedStop - movedStart)) ++ be16 slot)

def relocateTarget (name : String) (map : OffsetMap) (tag : UInt8) : Relocator Bytes := do
  match TargetShape.ofTag? tag with
  | some .ranges =>
      let count ← reading name u16
      let ranges ← (List.range count.toNat).mapM fun _ => relocateRange name map
      return be16 count ++ ranges.flatten
  | some .offset =>
      let offset ← reading name u16
      return be16 (← map.find16 offset)
  | some .argument =>
      let offset ← reading name u16
      let argument ← reading name u8
      return be16 (← map.find16 offset) ++ [argument]
  | some (.fixed count) => reading name (Reader.take count)
  | none => throw (.badAttribute name)

/-- Moves one annotation, nested at most `depth` deep. -/
def relocateOne (name : String) (map : OffsetMap) (depth : Nat) : Relocator Bytes := do
  let tag ← reading name u8
  let target ← relocateTarget name map tag
  let path ← reading name copyPath
  let rest ← reading name (copyProper (copyValue depth))
  return tag :: (target ++ (path ++ rest))

def relocateAll (name : String) (map : OffsetMap) (depth : Nat) : Relocator Bytes := do
  let count ← reading name u16
  let pieces ← (List.range count.toNat).mapM fun _ => relocateOne name map depth
  reading name Reader.atEnd
  return be16 count ++ pieces.flatten

/-- Moves the contents of the attribute `name`. -/
def relocateTable (name : String) (map : OffsetMap) (info : Bytes) : Except Malformed Bytes := do
  return (← relocateAll name map info.length info).1

end TypeAnnotation

end Downlevel
