/-
# Downlevel.Numbering — numbers for synthesized classes

A numbering remembers the last number it gave out; the first is 1. Several holders
may share one numbering: `Desk` keeps the numberings and, for each holder, which of
them is theirs.
-/

namespace Downlevel

set_option autoImplicit false

/-- The last number given out, 0 if none yet. -/
structure Numbering where
  last : UInt32
  deriving DecidableEq

namespace Numbering

def fresh : Numbering := ⟨0⟩

/-- Gives out the next number. -/
def next (numbering : Numbering) : UInt32 × Numbering :=
  (numbering.last + 1, ⟨numbering.last + 1⟩)

/-! ## Shared numberings -/

structure Desk where
  numberings : Array Numbering
  /-- For each holder, the position of their numbering. -/
  holders : Array Nat

namespace Desk

/-- One holder with a fresh numbering. -/
def initial : Desk := ⟨#[fresh], #[0]⟩

def holding (desk : Desk) (holder : Nat) : Nat :=
  desk.holders.getD holder 0

def numbering (desk : Desk) (holder : Nat) : Numbering :=
  desk.numberings.getD (desk.holding holder) fresh

/-- A new holder with a fresh numbering. -/
def enroll (desk : Desk) : Nat × Desk :=
  (desk.holders.size,
    ⟨desk.numberings.push fresh, desk.holders.push desk.numberings.size⟩)

/-- A new holder who shares the numbering of another. -/
def share (desk : Desk) (holder : Nat) : Nat × Desk :=
  (desk.holders.size, { desk with holders := desk.holders.push (desk.holding holder) })

def replace (desk : Desk) (holder : Nat) (numbering : Numbering) : Desk :=
  { desk with
    numberings := desk.numberings.setIfInBounds (desk.holding holder) numbering }

def next (desk : Desk) (holder : Nat) : UInt32 × Desk :=
  let (number, numbering) := (desk.numbering holder).next
  (number, desk.replace holder numbering)

def reset (desk : Desk) (holder : Nat) : Desk :=
  desk.replace holder fresh

/-- Whether two holders draw from one numbering. -/
def shares (desk : Desk) (a b : Nat) : Bool :=
  desk.holding a == desk.holding b

end Desk

end Numbering

end Downlevel
