/-
# Downlevel.Pool.Intern — adding constants

`intern` finds the first slot that holds a constant, or appends the constant; an
index once handed out never moves. A method reference is interned together with
everything it names, in the order owner text, owner, name text, descriptor text,
name and type, reference.

An edit keeps the pool it has reached when it fails, so that nothing it appended
is forgotten and nothing that was there before is lost.
-/
import Downlevel.Pool.Basic
import Downlevel.Text.Modified

namespace Downlevel.Pool

set_option autoImplicit false

inductive InternError where
  /-- Every slot is taken. -/
  | full
  /-- The coded text does not fit a 16-bit length. -/
  | tooLong (length : Nat)
  deriving DecidableEq

/-- A step that may append to a pool. -/
abbrev Edit (α : Type) : Type := ExceptT InternError (StateM Pool) α

/-- The index of the first slot that holds the constant. -/
def find? (pool : Pool) (constant : Constant) : Option UInt16 :=
  (pool.slots.findIdx? fun slot => slot == some constant).map fun n => UInt16.ofNat (n + 1)

/-- Appends a constant in a slot of its own. -/
def append (constant : Constant) : Edit UInt16 := do
  let pool ← get
  if capacity ≤ pool.slots.size then throw .full
  set (Pool.mk (pool.slots.push (some constant)))
  return UInt16.ofNat (pool.slots.size + 1)

def intern (constant : Constant) : Edit UInt16 := do
  match (← get).find? constant with
  | some index => return index
  | none => append constant

def internText (text : String) : Edit UInt16 := do
  let bytes := Modified.encode text
  if 65535 < bytes.length then throw (.tooLong bytes.length)
  intern (.utf8 bytes)

def internClass (name : String) : Edit UInt16 := do
  intern (.classRef (← internText name))

def internNameAndType (name descriptor : String) : Edit UInt16 := do
  let nameIndex ← internText name
  let descriptorIndex ← internText descriptor
  intern (.nameAndType nameIndex descriptorIndex)

def internMethodRef (owner name descriptor : String) (ofInterface : Bool) : Edit UInt16 := do
  let ownerIndex ← internClass owner
  let nameAndTypeIndex ← internNameAndType name descriptor
  if ofInterface then intern (.interfaceMethodRef ownerIndex nameAndTypeIndex)
  else intern (.methodRef ownerIndex nameAndTypeIndex)

end Downlevel.Pool
