/-
# Downlevel.Code.Body — method bodies

A method body is the contents of the attribute named `Code`: limits of the stack
and the locals, the code itself, the exception handlers, and attributes of its
own. The code's length is a 32-bit number and nothing here bounds it further.
-/
import Downlevel.ClassFile.Reader
import Downlevel.ClassFile.Writer

namespace Downlevel

set_option autoImplicit false

/-- An exception handler: the range it covers, where it starts, what it catches. -/
structure Handler where
  start : UInt16
  stop : UInt16
  target : UInt16
  catchType : UInt16
  deriving DecidableEq

structure Body where
  maxStack : UInt16
  maxLocals : UInt16
  code : Bytes
  handlers : List Handler
  attributes : List Attribute
  deriving DecidableEq

open Reader in
def Handler.read : Reader Handler := do
  let start ← u16
  let stop ← u16
  let target ← u16
  let catchType ← u16
  return ⟨start, stop, target, catchType⟩

def Handler.write (h : Handler) : Bytes :=
  be16 h.start ++ (be16 h.stop ++ (be16 h.target ++ be16 h.catchType))

/-- Reads the whole of an attribute's contents; any fault is blamed on the attribute. -/
def readAttribute {α : Type} (name : String) (r : Reader α) (info : Bytes) :
    Except Malformed α :=
  match Reader.whole r info with
  | .ok (a, _) => .ok a
  | .error _ => .error (.badAttribute name)

namespace Body

open Reader

def read : Reader Body := do
  let maxStack ← u16
  let maxLocals ← u16
  let code ← Reader.take (← u32).toNat
  let handlers ← Reader.table Handler.read
  let attributes ← Reader.table Attribute.read
  return ⟨maxStack, maxLocals, code, handlers, attributes⟩

def attributeName : String := "Code"

def parse (info : Bytes) : Except Malformed Body :=
  readAttribute attributeName read info

def write (b : Body) : Bytes :=
  [be16 b.maxStack, be16 b.maxLocals, be32 (UInt32.ofNat b.code.length), b.code,
    writeTable Handler.write b.handlers, writeTable Attribute.write b.attributes].flatten

end Body

namespace Member

/-- The position of the attribute that holds the method's body. -/
def bodyPosition (pool : Pool) (m : Member) : Except Malformed (Option Nat) :=
  Attribute.position pool Body.attributeName m.attributes

/-- The contents of the first attribute that holds a body. -/
def bodyInfo (pool : Pool) (m : Member) : Except Malformed (Option Bytes) := do
  match ← m.bodyPosition pool with
  | none => return none
  | some n => return (m.attributes[n]?).map Attribute.info

def body (pool : Pool) (m : Member) : Except Malformed (Option Body) := do
  match ← m.bodyInfo pool with
  | none => return none
  | some info => return some (← Body.parse info)

end Member

end Downlevel
