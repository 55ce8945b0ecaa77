/-
# Downlevel.Code.Relocation — tables that name code offsets

When instructions move, everything in a body that names a code offset has to
follow: the exception handlers first, then the attributes in their order. Six kinds
of attribute hold offsets; all others are left alone. An attribute whose name cannot
be looked up is an error, whatever it would have been.
-/
import Downlevel.Code.Frames
import Downlevel.Code.TypeAnnotations

namespace Downlevel

set_option autoImplicit false

/-! ## Handlers -/

def Handler.relocate (map : OffsetMap) (h : Handler) : Except Malformed Handler := do
  let start ← map.find16 h.start
  let stop ← map.find16 h.stop
  let target ← map.find16 h.target
  return ⟨start, stop, target, h.catchType⟩

/-! ## Line numbers -/

structure LineNumber where
  start : UInt16
  line : UInt16
  deriving DecidableEq

namespace LineNumber

def attributeName : String := "LineNumberTable"

def read : Reader LineNumber := do
  let start ← Reader.u16
  let line ← Reader.u16
  return ⟨start, line⟩

def write (row : LineNumber) : Bytes :=
  be16 row.start ++ be16 row.line

def relocate (map : OffsetMap) (row : LineNumber) : Except Malformed LineNumber := do
  return { row with start := ← map.find16 row.start }

def relocateTable (map : OffsetMap) (info : Bytes) : Except Malformed Bytes := do
  let rows ← readAttribute attributeName (Reader.table read) info
  return writeTable write (← rows.mapM (relocate map))

end LineNumber

/-! ## Local variables -/

/-- The range in which a local variable lives; `type` is a descriptor or a signature. -/
structure LocalVariable where
  start : UInt16
  length : UInt16
  name : UInt16
  type : UInt16
  slot : UInt16
  deriving DecidableEq

namespace LocalVariable

def read : Reader LocalVariable := do
  let start ← Reader.u16
  let length ← Reader.u16
  let name ← Reader.u16
  let type ← Reader.u16
  let slot ← Reader.u16
  return ⟨start, length, name, type, slot⟩

def write (row : LocalVariable) : Bytes :=
  be16 row.start ++ (be16 row.length ++ (be16 row.name ++ (be16 row.type ++ be16 row.slot)))

/-- Moves both ends of the range and stores the distance between them. -/
def relocate (map : OffsetMap) (row : LocalVariable) : Except Malformed LocalVariable := do
  let start ← map.find16 row.start
  let stop ← map.find (row.start.toNat + row.length.toNat)
  return { row with start := start, length := UInt16.ofNat (stop - start.toNat) }

def relocateTable (name : String) (map : OffsetMap) (info : Bytes) : Except Malformed Bytes := do
  let rows ← readAttribute name (Reader.table read) info
  return writeTable write (← rows.mapM (relocate map))

end LocalVariable

/-! ## Attributes -/

/-- An attribute that names code offsets. -/
inductive OffsetTable where
  | lineNumbers
  | localVariables
  | localVariableTypes
  | frames
  | visibleAnnotations
  | invisibleAnnotations
  deriving DecidableEq

namespace OffsetTable

def attributeName : OffsetTable → String
  | lineNumbers => LineNumber.attributeName
  | localVariables => "LocalVariableTable"
  | localVariableTypes => "LocalVariableTypeTable"
  | frames => Frame.attributeName
  | visibleAnnotations => "RuntimeVisibleTypeAnnotations"
  | invisibleAnnotations => "RuntimeInvisibleTypeAnnotations"

def all : List OffsetTable :=
  [lineNumbers, localVariables, localVariableTypes, frames, visibleAnnotations,
    invisibleAnnotations]

def ofName? (name : String) : Option OffsetTable :=
  all.find? fun table => table.attributeName == name

def relocate (map : OffsetMap) (info : Bytes) : OffsetTable → Except Malformed Bytes
  | lineNumbers => LineNumber.relocateTable map info
  | localVariables => LocalVariable.relocateTable localVariables.attributeName map info
  | localVariableTypes => LocalVariable.relocateTable localVariableTypes.attributeName map info
  | frames => Frame.relocateTable map info
  | visibleAnnotations =>
      TypeAnnotation.relocateTable visibleAnnotations.attributeName map info
  | invisibleAnnotations =>
      TypeAnnotation.relocateTable invisibleAnnotations.attributeName map info

end OffsetTable

def Attribute.relocate (pool : Pool) (map : OffsetMap) (a : Attribute) :
    Except Malformed Attribute := do
  match OffsetTable.ofName? (← pool.utf8 a.name) with
  | some table => return { a with info := ← table.relocate map a.info }
  | none => return a

/-- A body with new code, and all its tables moved along. -/
def Body.relocate (pool : Pool) (map : OffsetMap) (code : Bytes) (b : Body) :
    Except Malformed Body := do
  let handlers ← b.handlers.mapM (Handler.relocate map)
  let attributes ← b.attributes.mapM (Attribute.relocate pool map)
  return { b with code := code, handlers := handlers, attributes := attributes }

end Downlevel
