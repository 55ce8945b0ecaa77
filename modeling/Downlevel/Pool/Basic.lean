/-
# Downlevel.Pool.Basic — the constant pool

A pool is a row of slots, indexed from 1. A constant that takes two slots stands
in the first of them; the second is empty and no index may name it. A pool has at
most 65534 slots, because its size plus one is stored in 16 bits.
-/
import Downlevel.Malformed

namespace Downlevel

set_option autoImplicit false

structure Pool where
  slots : Array (Option Constant)
  deriving DecidableEq

namespace Pool

/-- The largest number of slots. -/
def capacity : Nat := 65534

/-- The count that a class file states: one more than the number of slots. -/
def count (pool : Pool) : UInt16 :=
  UInt16.ofNat (pool.slots.size + 1)

/-- The constant at an index. -/
def entry? (pool : Pool) (index : UInt16) : Option Constant :=
  match index.toNat with
  | 0 => none
  | n + 1 => (pool.slots[n]?).join

def entry (pool : Pool) (index : UInt16) : Except Malformed Constant :=
  match pool.entry? index with
  | some constant => .ok constant
  | none => .error (.badIndex index)

/-- Whether the pool holds a dynamically computed constant. -/
def hasDynamic (pool : Pool) : Bool :=
  pool.slots.any fun slot =>
    match slot with
    | some constant => constant.isDynamic
    | none => false

end Pool

end Downlevel
