/-
# Downlevel.Retention — which methods stay

Older runtimes know neither bridges nor bodies in interfaces. Bridges of interfaces are
dropped; other methods of interfaces that are not abstract are reported and stay. The
body of a lambda is called from a synthesized class, so a private one is widened. The
methods that stay keep their order and all else about them.
-/
import Downlevel.CallSite
import Downlevel.ClassFile.Basic
import Downlevel.Note

namespace Downlevel

set_option autoImplicit false

namespace Member

/-- Reports a method of an interface that is not abstract. -/
def reportBody (pool : Pool) (owner name : String) (m : Member) : Noted Unit := do
  if Access.has m.access Access.abstractFlag then return ()
  else
    let descriptor ← Noted.check (m.descriptorText pool)
    Noted.report (.nonAbstractInterfaceMethod owner (name ++ descriptor))

/-- Opens the body of a lambda to other classes. -/
def widen (owner name : String) (m : Member) : Noted Member := do
  if isLambdaBody name && Access.has m.access Access.privateFlag then
    Noted.emit .debug "widening lambda implementation method"
      [("class", owner), ("method", name)]
    return { m with access := Access.nonPrivate m.access }
  else return m

/-- The method as it stays in a class that is no interface. -/
def retainInClass (pool : Pool) (owner : String) (m : Member) : Noted (Option Member) := do
  let name ← Noted.check (m.nameText pool)
  return some (← m.widen owner name)

/-- The method as it stays in an interface, if it does. -/
def retainInInterface (pool : Pool) (owner : String) (m : Member) : Noted (Option Member) := do
  let name ← Noted.check (m.nameText pool)
  if Access.has m.access Access.bridgeFlag then
    Noted.emit .debug "dropping bridge method on interface" [("class", owner), ("method", name)]
    return none
  else
    m.reportBody pool owner name
    return some (← m.widen owner name)

end Member

namespace ClassFile

def retain (c : ClassFile) (owner : String) (m : Member) : Noted (Option Member) :=
  if c.isInterface then m.retainInInterface c.pool owner else m.retainInClass c.pool owner

/-- The class with the methods that stay; `owner` is its name. -/
def retainMethods (owner : String) (c : ClassFile) : Noted ClassFile := do
  return { c with methods := ← c.methods.filterMapM (c.retain owner) }

end ClassFile

end Downlevel
