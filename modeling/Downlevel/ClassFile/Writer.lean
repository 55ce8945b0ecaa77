/-
# Downlevel.ClassFile.Writer — writing a class file

The inverse of reading. Counts and lengths are cut to the width of their field;
a class file that was read, or that was changed within the limits of the format,
loses nothing by it.
-/
import Downlevel.ClassFile.Basic

namespace Downlevel

set_option autoImplicit false

/-- Writes a table: a 16-bit count, then the items. -/
def writeTable {α : Type} (write : α → Bytes) (items : List α) : Bytes :=
  be16 (UInt16.ofNat items.length) ++ items.flatMap write

namespace Constant

def write : Constant → Bytes
  | utf8 bytes => 1 :: (be16 (UInt16.ofNat bytes.length) ++ bytes)
  | integer value => 3 :: be32 value.toUInt32
  | float bits => 4 :: be32 bits
  | long value => 5 :: be64 value.toUInt64
  | double bits => 6 :: be64 bits
  | classRef name => 7 :: be16 name
  | string text => 8 :: be16 text
  | fieldRef owner signature => 9 :: (be16 owner ++ be16 signature)
  | methodRef owner signature => 10 :: (be16 owner ++ be16 signature)
  | interfaceMethodRef owner signature => 11 :: (be16 owner ++ be16 signature)
  | nameAndType name descriptor => 12 :: (be16 name ++ be16 descriptor)
  | methodHandle kind reference => 15 :: kind :: be16 reference
  | methodType descriptor => 16 :: be16 descriptor
  | dynamic bootstrap signature => 17 :: (be16 bootstrap ++ be16 signature)
  | invokeDynamic bootstrap signature => 18 :: (be16 bootstrap ++ be16 signature)
  | module name => 19 :: be16 name
  | package name => 20 :: be16 name

end Constant

namespace Pool

/-- An empty slot is not written. -/
def writeSlot : Option Constant → Bytes
  | some constant => constant.write
  | none => []

def write (pool : Pool) : Bytes :=
  be16 pool.count ++ pool.slots.toList.flatMap writeSlot

end Pool

def Attribute.write (a : Attribute) : Bytes :=
  be16 a.name ++ (be32 (UInt32.ofNat a.info.length) ++ a.info)

def Member.write (m : Member) : Bytes :=
  be16 m.access ++ (be16 m.name ++ (be16 m.descriptor ++ writeTable Attribute.write m.attributes))

namespace ClassFile

def magic : Bytes := [0xCA, 0xFE, 0xBA, 0xBE]

def write (c : ClassFile) : Bytes :=
  [magic, be16 c.version.minor, be16 c.version.major, c.pool.write, be16 c.access,
    be16 c.thisClass, be16 c.superClass, writeTable be16 c.interfaces,
    writeTable Member.write c.fields, writeTable Member.write c.methods,
    writeTable Attribute.write c.attributes].flatten

end ClassFile

end Downlevel
