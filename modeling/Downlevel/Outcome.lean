/-
# Downlevel.Outcome — bringing a class down to a version

The class is read, its version is clamped, and the methods that stay are chosen
(`prepare`); the lambda call sites are replaced; what is left of the bootstrap table is
tidied up; and the class is written. A class is lowered as a whole or not at all, but
what was said, asked and numbered on the way to a failure stands.
-/
import Downlevel.Retention
import Downlevel.Substitution

namespace Downlevel

set_option autoImplicit false

namespace ClassFile

/-- The class with a version that is not later than `target`. -/
def clamp (owner : String) (target : Version) (c : ClassFile) : Noted ClassFile := do
  if target.rank < c.version.rank then
    Noted.emit .debug "clamping class version"
      [("class", owner), ("from", c.version.text), ("to", target.text)]
  return { c with version := c.version.earlier target }

end ClassFile

/-- A class that is ready for its call sites to be replaced. -/
structure Prepared where
  owner : String
  table : List BootstrapMethod
  classFile : ClassFile

/-- Reads a class, clamps its version and chooses its methods. -/
def prepare (target : Version) (bytes : Bytes) : Noted Prepared := do
  let c ← Noted.check (ClassFile.parse bytes)
  let owner ← Noted.check c.name
  let c ← c.clamp owner target
  let c ← c.retainMethods owner
  let table ← Noted.check c.bootstrapMethods
  return ⟨owner, table, c⟩

/-- What lowering a class leads to. -/
structure Outcome (ω : Type) where
  result : Except Failure Bytes
  notes : Array Note
  numbering : Numbering
  world : ω

/-- Lowers a class to a version. -/
def lower {ω : Type} (around : Surroundings ω) (target : Version) (bytes : Bytes)
    (numbering : Numbering) (world : ω) : Outcome ω :=
  match (prepare target bytes).run #[] with
  | (.error e, notes) => ⟨.error (.malformed e), notes, numbering, world⟩
  | (.ok p, notes) =>
      match (p.classFile.methods.mapM (Member.substitute p.owner p.table around)).run
          ⟨world, numbering, notes, none, p.classFile.pool⟩ with
      | (.error failure, work) => ⟨.error failure, work.notes, work.numbering, work.world⟩
      | (.ok methods, work) =>
          match ({ p.classFile with methods := methods, pool := work.pool }.tidyBootstrap).run
              work.notes with
          | (.error e, notes) => ⟨.error (.malformed e), notes, work.numbering, work.world⟩
          | (.ok c, notes) => ⟨.ok c.write, notes, work.numbering, work.world⟩

end Downlevel
