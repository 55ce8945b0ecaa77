/-
# Downlevel.ClassFile.Basic — class files

A class file is a version, a constant pool, the class itself, and tables of
interfaces, fields, methods and attributes. Attributes are kept as raw bytes
under the index of their name: most of them are never looked into, and stay valid
because no index of the pool ever moves.
-/
import Downlevel.Pool.Lookup
import Downlevel.Access
import Downlevel.Version

namespace Downlevel

set_option autoImplicit false

structure Attribute where
  name : UInt16
  info : Bytes
  deriving DecidableEq

/-- A field or a method. -/
structure Member where
  access : UInt16
  name : UInt16
  descriptor : UInt16
  attributes : List Attribute
  deriving DecidableEq

structure ClassFile where
  version : Version
  pool : Pool
  access : UInt16
  thisClass : UInt16
  superClass : UInt16
  interfaces : List UInt16
  fields : List Member
  methods : List Member
  attributes : List Attribute
  deriving DecidableEq

namespace Attribute

def isNamed (pool : Pool) (name : String) (a : Attribute) : Except Malformed Bool := do
  return (← pool.utf8 a.name) == name

/-- The position of the first attribute of that name, counted from `n`. A name that
cannot be looked up before it is found is an error. -/
def positionFrom (pool : Pool) (name : String) :
    Nat → List Attribute → Except Malformed (Option Nat)
  | _, [] => .ok none
  | n, a :: rest =>
      match a.isNamed pool name with
      | .ok true => .ok (some n)
      | .ok false => positionFrom pool name (n + 1) rest
      | .error e => .error e

/-- The position of the first attribute of that name. -/
def position (pool : Pool) (name : String) (attributes : List Attribute) :
    Except Malformed (Option Nat) :=
  positionFrom pool name 0 attributes

end Attribute

namespace Member

def nameText (pool : Pool) (m : Member) : Except Malformed String :=
  pool.utf8 m.name

def descriptorText (pool : Pool) (m : Member) : Except Malformed String :=
  pool.utf8 m.descriptor

/-- The name and the descriptor, written together. -/
def signature (pool : Pool) (m : Member) : Except Malformed String := do
  return (← m.nameText pool) ++ (← m.descriptorText pool)

end Member

namespace ClassFile

def isInterface (c : ClassFile) : Bool :=
  Access.has c.access Access.interfaceFlag

def name (c : ClassFile) : Except Malformed String :=
  c.pool.className c.thisClass

/-! ## Searching for a method

A method whose name or descriptor cannot be looked up is passed over, but the
events of the failed lookups stand. -/

/-- Whether the text at an index is `text`, and the events of looking. -/
def probe (pool : Pool) (index : UInt16) (text : String) : Bool × List Event :=
  match pool.utf8 index with
  | .ok found => (found == text, [])
  | .error e => (false, e.event?.toList)

/-- Searches from position `n` on, adding to the reversed events of the search so far. -/
def searchFrom (pool : Pool) (name descriptor : String) :
    Nat → List Event → List Member → Option Nat × List Event
  | _, events, [] => (none, events.reverse)
  | n, events, m :: rest =>
      match probe pool m.name name with
      | (false, more) => searchFrom pool name descriptor (n + 1) (more.reverse ++ events) rest
      | (true, more) =>
          match probe pool m.descriptor descriptor with
          | (false, more') =>
              searchFrom pool name descriptor (n + 1) (more'.reverse ++ more.reverse ++ events) rest
          | (true, more') => (some n, (more'.reverse ++ more.reverse ++ events).reverse)

/-- The position of the first method with that name and descriptor. -/
def findMethod (c : ClassFile) (name descriptor : String) : Option Nat × List Event :=
  searchFrom c.pool name descriptor 0 [] c.methods

end ClassFile

end Downlevel
