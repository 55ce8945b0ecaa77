/-
# Downlevel.Pool.Lookup — following indices

Each lookup names the kind of constant it wants at an index and follows the
indices inside it. The order in which the parts are followed decides which of two
faults is reported: a member's name and type come before its class, and a method
handle's member before its kind.
-/
import Downlevel.Pool.Basic
import Downlevel.Text.Modified

namespace Downlevel.Pool

set_option autoImplicit false

def utf8 (pool : Pool) (index : UInt16) : Except Malformed String := do
  match ← pool.entry index with
  | .utf8 bytes =>
      match Modified.decode? bytes with
      | some text => .ok text
      | none => .error (.badText index)
  | found => .error (.wrongKind index .utf8 found)

def className (pool : Pool) (index : UInt16) : Except Malformed String := do
  match ← pool.entry index with
  | .classRef name => pool.utf8 name
  | found => .error (.wrongKind index .classRef found)

/-- A name and a descriptor. -/
def nameAndType (pool : Pool) (index : UInt16) : Except Malformed (String × String) := do
  match ← pool.entry index with
  | .nameAndType name descriptor => return (← pool.utf8 name, ← pool.utf8 descriptor)
  | found => .error (.wrongKind index .nameAndType found)

/-- The member with the given class and name-and-type indices. -/
def member (pool : Pool) (owner nameAndType : UInt16) (ofInterface : Bool) :
    Except Malformed MemberRef := do
  let (name, descriptor) ← pool.nameAndType nameAndType
  return ⟨← pool.className owner, name, descriptor, ofInterface⟩

def memberRef (pool : Pool) (index : UInt16) : Except Malformed MemberRef := do
  match ← pool.entry index with
  | .fieldRef owner nameAndType => pool.member owner nameAndType false
  | .methodRef owner nameAndType => pool.member owner nameAndType false
  | .interfaceMethodRef owner nameAndType => pool.member owner nameAndType true
  | found => .error (.wrongKind index .memberReference found)

def methodHandle (pool : Pool) (index : UInt16) : Except Malformed MethodHandle := do
  match ← pool.entry index with
  | .methodHandle kind reference =>
      let member ← pool.memberRef reference
      match ReferenceKind.ofCode? kind with
      | some kind => return ⟨kind, member⟩
      | none => .error (.badReferenceKind kind)
  | found => .error (.wrongKind index .methodHandle found)

/-- A dynamic call site: its entry in the bootstrap table, its name and its descriptor. -/
def invokeDynamic (pool : Pool) (index : UInt16) :
    Except Malformed (UInt16 × String × String) := do
  match ← pool.entry index with
  | .invokeDynamic bootstrap nameAndType =>
      return (bootstrap, ← pool.nameAndType nameAndType)
  | found => .error (.wrongKind index .invokeDynamic found)

def loadable (pool : Pool) (index : UInt16) : Except Malformed Loadable := do
  match ← pool.entry index with
  | .integer value => return .integer value
  | .float bits => return .float bits
  | .long value => return .long value
  | .double bits => return .double bits
  | .string text => return .string (← pool.utf8 text)
  | .classRef name => return .classRef (← pool.utf8 name)
  | .methodType descriptor => return .methodType (← pool.utf8 descriptor)
  | .methodHandle _ _ => return .methodHandle (← pool.methodHandle index)
  | .dynamic bootstrap nameAndType =>
      let (name, descriptor) ← pool.nameAndType nameAndType
      return .dynamic bootstrap name descriptor
  | found => .error (.wrongKind index .loadable found)

end Downlevel.Pool
