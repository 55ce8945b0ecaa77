/-
# Downlevel.Bootstrap — the bootstrap table and what remains of it

The bootstrap table is an attribute of the class: for each entry a method handle and
the arguments that it is called with. Once no method holds a dynamic call and no
constant is computed dynamically, nothing refers to the table and it is dropped. A
version that knows no dynamic linkage also rejects the constants made for it; those
that no code loads are blanked, so that no index of the pool moves.
-/
import Std.Data.HashSet
import Downlevel.Code.Body
import Downlevel.Code.Decode
import Downlevel.Note

namespace Downlevel

set_option autoImplicit false

structure BootstrapMethod where
  handle : UInt16
  arguments : List UInt16
  deriving DecidableEq

namespace BootstrapMethod

def attributeName : String := "BootstrapMethods"

def read : Reader BootstrapMethod := do
  let handle ← Reader.u16
  let arguments ← Reader.table Reader.u16
  return ⟨handle, arguments⟩

def readTable (info : Bytes) : Except Malformed (List BootstrapMethod) :=
  readAttribute attributeName (Reader.table read) info

end BootstrapMethod

namespace ClassFile

/-- The bootstrap table, empty if the class has none. -/
def bootstrapMethods (c : ClassFile) : Except Malformed (List BootstrapMethod) := do
  match ← Attribute.position c.pool BootstrapMethod.attributeName c.attributes with
  | none => return []
  | some n =>
      match c.attributes[n]? with
      | none => return []
      | some a => BootstrapMethod.readTable a.info

end ClassFile

/-! ## What the code refers to -/

/-- The instructions of a method, none if it has no body. -/
def Member.instructions (pool : Pool) (m : Member) : Except Malformed (List Placed) := do
  match ← m.body pool with
  | none => return []
  | some body => decode body.code

/-- The instructions of all methods. -/
def ClassFile.instructions (c : ClassFile) : Except Malformed (List Placed) := do
  return (← c.methods.mapM (Member.instructions c.pool)).flatten

namespace Placed

def isDynamicCall (p : Placed) : Bool :=
  match p.instruction with
  | .dynamicCall _ => true
  | _ => false

/-- The index of the constant that the instruction loads. -/
def loaded? (p : Placed) : Option UInt16 :=
  match p.instruction with
  | .load _ index => some index
  | _ => none

end Placed

/-- The indices of all constants that the code loads. -/
def loadedIndices (code : List Placed) : Std.HashSet UInt16 :=
  (code.filterMap Placed.loaded?).foldl (·.insert ·) ∅

/-! ## Leftovers -/

/-- Whether the constant serves dynamic linkage and nothing loads it. -/
def Constant.isLeftover (loaded : Bool) : Constant → Bool
  | .invokeDynamic _ _ => true
  | .methodHandle _ _ => !loaded
  | .methodType _ => !loaded
  | _ => false

namespace Pool

/-- The constant that stands for one that was blanked. -/
def blank : Constant := .utf8 []

/-- Whether the slot at position `n` holds a leftover. -/
def isLeftover (loaded : Std.HashSet UInt16) (n : Nat) (slot : Option Constant) : Bool :=
  match slot with
  | some constant => constant.isLeftover (loaded.contains (UInt16.ofNat (n + 1)))
  | none => false

/-- The positions of all leftovers. -/
def leftovers (loaded : Std.HashSet UInt16) (pool : Pool) : List Nat :=
  (pool.slots.toList.zipIdx.filter fun entry => isLeftover loaded entry.2 entry.1).map Prod.snd

/-- The pool with all leftovers blanked. -/
def blankLeftovers (loaded : Std.HashSet UInt16) (pool : Pool) : Pool :=
  ⟨pool.slots.mapIdx fun n slot => if isLeftover loaded n slot then some blank else slot⟩

end Pool

/-- The attribute, unless it is a bootstrap table. -/
def Attribute.unlessBootstrap (pool : Pool) (a : Attribute) : Noted (Option Attribute) := do
  if ← Noted.check (a.isNamed pool BootstrapMethod.attributeName) then
    Noted.emit .debug "dropping unused BootstrapMethods attribute" []
    return none
  else return some a

namespace ClassFile

/-- Whether anything in the class still needs the bootstrap table. -/
def needsBootstrap (c : ClassFile) (code : List Placed) : Bool :=
  code.any Placed.isDynamicCall || c.pool.hasDynamic

/-- Blanks the leftovers of dynamic linkage, with an event for each. -/
def blankLeftovers (loaded : Std.HashSet UInt16) (c : ClassFile) : Noted ClassFile := do
  (c.pool.leftovers loaded).forM fun n =>
    Noted.emit .trace "scrubbing dynamic-linkage constant" [("index", toString (n + 1))]
  return { c with pool := c.pool.blankLeftovers loaded }

/-- The class without what only the bootstrap table needed. -/
def tidyBootstrap (c : ClassFile) : Noted ClassFile := do
  let code ← Noted.check c.instructions
  if c.needsBootstrap code then return c
  else
    let attributes ← c.attributes.filterMapM (Attribute.unlessBootstrap c.pool)
    let c := { c with attributes := attributes }
    if c.version.dynamicLinkage then return c else c.blankLeftovers (loadedIndices code)

end ClassFile

end Downlevel
