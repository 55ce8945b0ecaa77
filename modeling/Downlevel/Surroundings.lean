/-
# Downlevel.Surroundings — who is asked while a class is lowered

Lowering a class asks two others: where the class itself is to be found, and which
factory replaces a call site. Both answers may depend on a state `ω` of their own and
change it; naming a factory may also draw numbers. Both always answer: a lookup that breaks
down (`Halt.overflow`) is no answer, and ends the lowering that asked for it.
-/
import Downlevel.CallSite
import Downlevel.ClassPath
import Downlevel.Malformed

namespace Downlevel

set_option autoImplicit false

/-- A call site that needs a factory, and the class it stands in. -/
structure Request where
  owner : ClassHandle
  site : CallSite
  deriving DecidableEq

/-- Why no factory was named. -/
structure Refusal where
  message : String
  cause : Option String
  deriving DecidableEq

/-- The messages of a refusal, the nearest first. -/
def Refusal.messages (refusal : Refusal) : List String :=
  refusal.message :: refusal.cause.toList

structure Surroundings (ω : Type) where
  resolve : String → ω → Except ResolutionError ClassHandle × List Event × ω
  nameFactory : Request → Numbering → ω → Except Refusal Factory × Numbering × ω

/-! ## Failures -/

/-- Why a class could not be lowered. -/
inductive Failure where
  | malformed (e : Malformed)
  | unresolved (e : ResolutionError)
  /-- No factory was named for a call site of the class. -/
  | refused (owner : String) (site : CallSite) (refusal : Refusal)
  /-- A call of the factory cannot stand for the call site. -/
  | unfitting (factory : Factory) (site : CallSite)
  | poolFull
  /-- The coded text does not fit a 16-bit length. -/
  | textTooLong (length : Nat)
  | branchOutOfRange (offset : Nat)
  deriving DecidableEq

namespace Failure

def message : Failure → String
  | malformed e => "malformed class file: " ++ e.message
  | unresolved e => "cannot resolve enclosing class: " ++ e.message
  | refused owner site _ => "cannot reify lambda call site " ++ site.text ++ " in " ++ owner
  | unfitting factory site =>
      "factory " ++ factory.text ++ " does not match call site type " ++ site.descriptor
  | poolFull => "constant pool is full"
  | textTooLong length =>
      "string constant of " ++ toString length ++ " bytes exceeds the 65535-byte Utf8 limit"
  | branchOutOfRange offset =>
      "branch at code offset " ++ toString offset ++ " no longer fits its encoding"

end Failure

end Downlevel
