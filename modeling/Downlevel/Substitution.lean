/-
# Downlevel.Substitution — factories for call sites

The call sites of a class are taken in the order of its methods and of their code.
A call site that constructs a lambda is replaced by a static call of the factory that
the surroundings name for it; the reference to the factory is added to the pool. Any
other call site is passed over, and its arguments are not looked at.

A body in which nothing was replaced keeps its bytes. Otherwise its code is laid out
and assembled anew, and its tables move along.
-/
import Downlevel.Bootstrap
import Downlevel.Code.Assemble
import Downlevel.Code.Relocation
import Downlevel.Pool.Intern
import Downlevel.Surroundings

namespace Downlevel

set_option autoImplicit false

/-! ## State -/

/-- What changes while call sites are replaced. -/
structure Work (ω : Type) where
  world : ω
  numbering : Numbering
  notes : Array Note
  /-- The class itself, once it was looked up. -/
  owner : Option ClassHandle
  pool : Pool

/-- A step of the work. -/
abbrev Step (ω α : Type) : Type := ExceptT Failure (StateM (Work ω)) α

namespace Step

variable {ω α : Type}

def emit (level : Level) (message : String) (fields : List (String × String)) : Step ω Unit :=
  modify fun work => { work with notes := work.notes.push (.event ⟨level, message, fields⟩) }

/-- Goes on with a result; a fault leaves its event. -/
def check : Except Malformed α → Step ω α
  | .ok a => pure a
  | .error e => do
      modify fun work => { work with notes := work.notes ++ Noted.ofFault e }
      throw (.malformed e)

/-- Looks something up in the pool as it is now. -/
def look (f : Pool → Except Malformed α) : Step ω α := do
  check (f (← get).pool)

/-- Adds to the pool. -/
def edit (e : Pool.Edit α) : Step ω α := do
  let work ← get
  match e.run work.pool with
  | (.ok a, pool) =>
      set { work with pool := pool }
      return a
  | (.error .full, pool) =>
      set { work with pool := pool }
      throw .poolFull
  | (.error (.tooLong length), pool) =>
      set { work with pool := pool }
      throw (.textTooLong length)

end Step

/-! ## Judging a call site -/

/-- What a dynamic call turns out to be. -/
inductive Judged where
  | lambda (site : CallSite)
  | foreign (site : String) (bootstrap : MethodHandle)
  deriving DecidableEq

/-- Judges the dynamic call of a constant by its bootstrap method. -/
def judge (table : List BootstrapMethod) (index : UInt16) (pool : Pool) :
    Except Malformed Judged := do
  let (position, name, descriptor) ← pool.invokeDynamic index
  match table[position.toNat]? with
  | none => throw (.noBootstrap position)
  | some method =>
      let bootstrap ← pool.methodHandle method.handle
      if bootstrap.member.owner == metafactory then
        let arguments ← method.arguments.mapM pool.loadable
        return .lambda ⟨name, descriptor, bootstrap, arguments⟩
      else return .foreign (name ++ descriptor) bootstrap

/-! ## Replacing a call site -/

/-- Where a call site stands. -/
structure Scope where
  /-- The name of the class. -/
  owner : String
  table : List BootstrapMethod
  /-- The name and descriptor of the method. -/
  method : String

namespace Scope

variable {ω : Type}

/-- The class itself, looked up the first time it is needed. -/
def ownerHandle (scope : Scope) (around : Surroundings ω) : Step ω ClassHandle := do
  let work ← get
  match work.owner with
  | some handle => return handle
  | none =>
      let (result, events, world) := around.resolve scope.owner work.world
      let notes := work.notes ++ (events.map Note.event).toArray
      match result with
      | .ok handle =>
          set { work with world := world, notes := notes, owner := some handle }
          return handle
      | .error e =>
          set { work with world := world, notes := notes }
          throw (.unresolved e)

/-- The factory that the surroundings name for a call site. -/
def requestFactory (scope : Scope) (around : Surroundings ω) (site : CallSite) :
    Step ω Factory := do
  let owner ← scope.ownerHandle around
  let work ← get
  let (result, numbering, world) :=
    around.nameFactory ⟨owner, site⟩ work.numbering work.world
  set { work with world := world, numbering := numbering }
  match result with
  | .ok factory => return factory
  | .error refusal => throw (.refused scope.owner site refusal)

/-- Makes sure that a call of the factory can stand for the call site. -/
def checkFactory (site : CallSite) (factory : Factory) : Step ω Unit := do
  let expected ← Step.check (MethodDescriptor.parse site.descriptor)
  if factory.fits expected then return () else throw (.unfitting factory site)

/-- Names, checks and adds the factory for a call site; gives the index of the reference. -/
def substitute (scope : Scope) (around : Surroundings ω) (site : CallSite) :
    Step ω UInt16 := do
  let factory ← scope.requestFactory around site
  checkFactory site factory
  let index ←
    Step.edit (Pool.internMethodRef factory.owner factory.name factory.descriptor false)
  Step.emit .debug "rewrote lambda call site"
    [("class", scope.owner), ("method", scope.method), ("factory", factory.text)]
  return index

/-- The index of the method to call in place of an instruction, if it is to be replaced. -/
def replacement (scope : Scope) (around : Surroundings ω) (p : Placed) :
    Step ω (Option UInt16) := do
  match p.instruction with
  | .dynamicCall index =>
      match ← Step.look (judge scope.table index) with
      | .lambda site => return some (← scope.substitute around site)
      | .foreign site bootstrap =>
          Step.emit .trace "passing through dynamic call site"
            [("method", scope.method), ("site", site), ("bootstrap", bootstrap.text)]
          return none
  | _ => return none

end Scope

/-! ## Methods -/

/-- The body with the replaced calls, laid out anew. -/
def Body.rebuild (body : Body) (code : List Placed) (calls : List (Option UInt16))
    (pool : Pool) : Except Failure (Except Malformed Body) :=
  match assemble (replaceCalls code calls) body.code.length with
  | .ok (bytes, map) => .ok (body.relocate pool map bytes)
  | .error (.stray e) => .ok (.error e)
  | .error (.outOfRange offset) => .error (.branchOutOfRange offset)

namespace Member

variable {ω : Type}

/-- The contents of a body's attribute with its lambda call sites replaced. -/
def substituteInfo (scope : Scope) (around : Surroundings ω) (info : Bytes) :
    Step ω Bytes := do
  let body ← Step.check (Body.parse info)
  let code ← Step.check (decode body.code)
  let calls ← code.mapM (scope.replacement around)
  if calls.all Option.isNone then return info
  else
    match body.rebuild code calls (← get).pool with
    | .ok rebuilt => return (← Step.check rebuilt).write
    | .error failure => throw failure

/-- The method with its lambda call sites replaced. -/
def substitute (owner : String) (table : List BootstrapMethod) (around : Surroundings ω)
    (m : Member) : Step ω Member := do
  let method ← Step.look m.signature
  match ← Step.look m.bodyPosition with
  | none => return m
  | some n =>
      match m.attributes[n]? with
      | none => return m
      | some a =>
          let info ← substituteInfo ⟨owner, table, method⟩ around a.info
          return { m with attributes := m.attributes.set n { a with info := info } }

end Member

end Downlevel
