/-
# Downlevel.ClassFile.Reader — reading a class file

The whole input must be one class file. A constant that takes two slots and
starts in the last one has no room; the fault lies just after it. A pool count of
0 is read like a count of 1: no slots.
-/
import Downlevel.ClassFile.Basic

namespace Downlevel

set_option autoImplicit false

namespace Constant

open Reader

/-- The kind of constant that a tag byte announces. -/
inductive Tag where
  | utf8
  | integer
  | float
  | long
  | double
  | classRef
  | string
  | fieldRef
  | methodRef
  | interfaceMethodRef
  | nameAndType
  | methodHandle
  | methodType
  | dynamic
  | invokeDynamic
  | module
  | package
  deriving DecidableEq

def Tag.ofByte? : UInt8 → Option Tag
  | 1 => some utf8
  | 3 => some integer
  | 4 => some float
  | 5 => some long
  | 6 => some double
  | 7 => some classRef
  | 8 => some string
  | 9 => some fieldRef
  | 10 => some methodRef
  | 11 => some interfaceMethodRef
  | 12 => some nameAndType
  | 15 => some methodHandle
  | 16 => some methodType
  | 17 => some dynamic
  | 18 => some invokeDynamic
  | 19 => some module
  | 20 => some package
  | _ => none

/-- What follows a tag byte. -/
def readBody : Tag → Reader Constant
  | .utf8 => do return .utf8 (← Reader.take (← u16).toNat)
  | .integer => do return .integer (← u32).toInt32
  | .float => do return .float (← u32)
  | .long => do return .long (← u64).toInt64
  | .double => do return .double (← u64)
  | .classRef => do return .classRef (← u16)
  | .string => do return .string (← u16)
  | .fieldRef => do return .fieldRef (← u16) (← u16)
  | .methodRef => do return .methodRef (← u16) (← u16)
  | .interfaceMethodRef => do return .interfaceMethodRef (← u16) (← u16)
  | .nameAndType => do return .nameAndType (← u16) (← u16)
  | .methodHandle => do return .methodHandle (← u8) (← u16)
  | .methodType => do return .methodType (← u16)
  | .dynamic => do return .dynamic (← u16) (← u16)
  | .invokeDynamic => do return .invokeDynamic (← u16) (← u16)
  | .module => do return .module (← u16)
  | .package => do return .package (← u16)

/-- Reads a constant; a tag that announces none is a fault at the tag. -/
def read : Reader Constant
  | [] => .error ⟨.truncated, []⟩
  | byte :: rest =>
      match Tag.ofByte? byte with
      | some tag => readBody tag rest
      | none => .error ⟨.unknownTag byte, byte :: rest⟩

end Constant

namespace Pool

/-- Fills `n` more slots. -/
def readSlots : Nat → Array (Option Constant) → Reader Pool
  | 0, slots, input => .ok (⟨slots⟩, input)
  | n + 1, slots, input =>
      match Constant.read input with
      | .error fault => .error fault
      | .ok (constant, rest) =>
          if constant.isWide then
            match n with
            | 0 => .error ⟨.noRoom, rest⟩
            | m + 1 => readSlots m ((slots.push (some constant)).push none) rest
          else readSlots n (slots.push (some constant)) rest

def read : Reader Pool := do
  readSlots ((← Reader.u16).toNat - 1) #[]

end Pool

open Reader in
def Attribute.read : Reader Attribute := do
  let name ← u16
  let info ← Reader.take (← u32).toNat
  return ⟨name, info⟩

open Reader in
def Member.read : Reader Member := do
  let access ← u16
  let name ← u16
  let descriptor ← u16
  let attributes ← Reader.table Attribute.read
  return ⟨access, name, descriptor, attributes⟩

namespace ClassFile

open Reader

def readMagic : Reader Unit
  | 0xCA :: 0xFE :: 0xBA :: 0xBE :: rest => .ok ((), rest)
  | input => .error ⟨.badMagic, input⟩

def read : Reader ClassFile := do
  readMagic
  let minor ← u16
  let major ← u16
  let pool ← Pool.read
  let access ← u16
  let thisClass ← u16
  let superClass ← u16
  let interfaces ← Reader.table u16
  let fields ← Reader.table Member.read
  let methods ← Reader.table Member.read
  let attributes ← Reader.table Attribute.read
  return {
    version := ⟨major, minor⟩, pool, access, thisClass, superClass, interfaces, fields, methods,
    attributes }

/-- Reads a byte string as one class file. -/
def parse (bytes : Bytes) : Except Malformed ClassFile :=
  match Reader.whole read bytes with
  | .ok (c, _) => .ok c
  | .error fault => .error (.unreadable (bytes.length - fault.rest.length) fault.kind)

end ClassFile

end Downlevel
