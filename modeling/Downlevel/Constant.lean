/-
# Downlevel.Constant — the entries of a constant pool

A constant is a piece of text, a number, or a record of indices of other
constants. Numbers with a fraction are kept as their bits: nothing here computes
with them. `MemberRef`, `MethodHandle` and `Loadable` are what the records stand
for once their indices have been followed.
-/
import Downlevel.Bytes

namespace Downlevel

set_option autoImplicit false

inductive Constant where
  | utf8 (bytes : Bytes)
  | integer (value : Int32)
  | float (bits : UInt32)
  | long (value : Int64)
  | double (bits : UInt64)
  | classRef (name : UInt16)
  | string (text : UInt16)
  | fieldRef (owner nameAndType : UInt16)
  | methodRef (owner nameAndType : UInt16)
  | interfaceMethodRef (owner nameAndType : UInt16)
  | nameAndType (name descriptor : UInt16)
  | methodHandle (kind : UInt8) (reference : UInt16)
  | methodType (descriptor : UInt16)
  | dynamic (bootstrap nameAndType : UInt16)
  | invokeDynamic (bootstrap nameAndType : UInt16)
  | module (name : UInt16)
  | package (name : UInt16)
  deriving DecidableEq

namespace Constant

/-- The name of a constant's kind. -/
def kind : Constant → String
  | utf8 _ => "Utf8"
  | integer _ => "Integer"
  | float _ => "Float"
  | long _ => "Long"
  | double _ => "Double"
  | classRef _ => "Class"
  | string _ => "String"
  | fieldRef _ _ => "Fieldref"
  | methodRef _ _ => "Methodref"
  | interfaceMethodRef _ _ => "InterfaceMethodref"
  | nameAndType _ _ => "NameAndType"
  | methodHandle _ _ => "MethodHandle"
  | methodType _ => "MethodType"
  | dynamic _ _ => "Dynamic"
  | invokeDynamic _ _ => "InvokeDynamic"
  | module _ => "Module"
  | package _ => "Package"

/-- Whether the constant takes two slots of the pool. -/
def isWide : Constant → Bool
  | long _ => true
  | double _ => true
  | _ => false

def isDynamic : Constant → Bool
  | dynamic _ _ => true
  | _ => false

end Constant

/-- What a lookup asks of the constant it finds. -/
inductive Expectation where
  | utf8
  | classRef
  | nameAndType
  | memberReference
  | methodHandle
  | invokeDynamic
  | loadable
  deriving DecidableEq

def Expectation.text : Expectation → String
  | utf8 => "Utf8"
  | classRef => "Class"
  | nameAndType => "NameAndType"
  | memberReference => "member reference"
  | methodHandle => "MethodHandle"
  | invokeDynamic => "InvokeDynamic"
  | loadable => "loadable constant"

/-! ## What constants stand for -/

/-- A field or method of a class or an interface. -/
structure MemberRef where
  owner : String
  name : String
  descriptor : String
  ofInterface : Bool
  deriving DecidableEq

/-- What a method handle does with its member. -/
inductive ReferenceKind where
  | getField
  | getStatic
  | putField
  | putStatic
  | invokeVirtual
  | invokeStatic
  | invokeSpecial
  | newInvokeSpecial
  | invokeInterface
  deriving DecidableEq

namespace ReferenceKind

def ofCode? : UInt8 → Option ReferenceKind
  | 1 => some getField
  | 2 => some getStatic
  | 3 => some putField
  | 4 => some putStatic
  | 5 => some invokeVirtual
  | 6 => some invokeStatic
  | 7 => some invokeSpecial
  | 8 => some newInvokeSpecial
  | 9 => some invokeInterface
  | _ => none

def code : ReferenceKind → UInt8
  | getField => 1
  | getStatic => 2
  | putField => 3
  | putStatic => 4
  | invokeVirtual => 5
  | invokeStatic => 6
  | invokeSpecial => 7
  | newInvokeSpecial => 8
  | invokeInterface => 9

def text : ReferenceKind → String
  | getField => "GetField"
  | getStatic => "GetStatic"
  | putField => "PutField"
  | putStatic => "PutStatic"
  | invokeVirtual => "InvokeVirtual"
  | invokeStatic => "InvokeStatic"
  | invokeSpecial => "InvokeSpecial"
  | newInvokeSpecial => "NewInvokeSpecial"
  | invokeInterface => "InvokeInterface"

end ReferenceKind

structure MethodHandle where
  kind : ReferenceKind
  member : MemberRef
  deriving DecidableEq

def MethodHandle.text (handle : MethodHandle) : String :=
  handle.member.owner ++ "." ++ handle.member.name ++ handle.member.descriptor ++
    " (" ++ handle.kind.text ++ ")"

/-- A constant that can be put on the operand stack or handed to a bootstrap method. -/
inductive Loadable where
  | integer (value : Int32)
  | float (bits : UInt32)
  | long (value : Int64)
  | double (bits : UInt64)
  | string (text : String)
  | classRef (name : String)
  | methodType (descriptor : String)
  | methodHandle (handle : MethodHandle)
  | dynamic (bootstrap : UInt16) (name descriptor : String)
  deriving DecidableEq

end Downlevel
