/-
# Downlevel.Access — access flags

Classes, fields and methods carry a 16-bit word of flags. Each of the three has
its own table of declared flags; bits outside the table are kept as they are.
-/

namespace Downlevel.Access

set_option autoImplicit false

structure Flag where
  name : String
  bit : UInt16
  deriving DecidableEq

/-! ## The flags that decisions hang on -/

def privateFlag : UInt16 := 0x0002
def bridgeFlag : UInt16 := 0x0040
def interfaceFlag : UInt16 := 0x0200
def abstractFlag : UInt16 := 0x0400

/-! ## Tables -/

def classFlags : List Flag :=
  [⟨"PUBLIC", 0x0001⟩, ⟨"FINAL", 0x0010⟩, ⟨"SUPER", 0x0020⟩, ⟨"INTERFACE", interfaceFlag⟩,
    ⟨"ABSTRACT", abstractFlag⟩, ⟨"SYNTHETIC", 0x1000⟩, ⟨"ANNOTATION", 0x2000⟩, ⟨"ENUM", 0x4000⟩,
    ⟨"MODULE", 0x8000⟩]

def fieldFlags : List Flag :=
  [⟨"PUBLIC", 0x0001⟩, ⟨"PRIVATE", privateFlag⟩, ⟨"PROTECTED", 0x0004⟩, ⟨"STATIC", 0x0008⟩,
    ⟨"FINAL", 0x0010⟩, ⟨"VOLATILE", 0x0040⟩, ⟨"TRANSIENT", 0x0080⟩, ⟨"SYNTHETIC", 0x1000⟩,
    ⟨"ENUM", 0x4000⟩]

def methodFlags : List Flag :=
  [⟨"PUBLIC", 0x0001⟩, ⟨"PRIVATE", privateFlag⟩, ⟨"PROTECTED", 0x0004⟩, ⟨"STATIC", 0x0008⟩,
    ⟨"FINAL", 0x0010⟩, ⟨"SYNCHRONIZED", 0x0020⟩, ⟨"BRIDGE", bridgeFlag⟩, ⟨"VARARGS", 0x0080⟩,
    ⟨"NATIVE", 0x0100⟩, ⟨"ABSTRACT", abstractFlag⟩, ⟨"STRICT", 0x0800⟩, ⟨"SYNTHETIC", 0x1000⟩]

/-! ## Questions about a word of flags -/

/-- Whether every bit of `flag` is set in `bits`. -/
def has (bits flag : UInt16) : Bool :=
  bits &&& flag == flag

/-- The names of the declared flags that are set, in the order of the table. -/
def names (flags : List Flag) (bits : UInt16) : List String :=
  (flags.filter fun f => has bits f.bit).map Flag.name

/-- All bits that the table declares. -/
def declared (flags : List Flag) : UInt16 :=
  flags.foldl (fun mask f => mask ||| f.bit) 0

/-- The word without undeclared bits. -/
def truncate (flags : List Flag) (bits : UInt16) : UInt16 :=
  bits &&& declared flags

/-- Whether no undeclared bit is set. -/
def isKnown (flags : List Flag) (bits : UInt16) : Bool :=
  truncate flags bits == bits

/-- The word with `flag` cleared. -/
def without (bits flag : UInt16) : UInt16 :=
  bits &&& ~~~flag

/-- A method's word with its private flag cleared. -/
def nonPrivate (bits : UInt16) : UInt16 :=
  without bits privateFlag

end Downlevel.Access
