/-
# Downlevel.Proofs.Recording — a record of what the surroundings are asked

`Surroundings.recorded` gives the same answers as the surroundings it is made of, and writes each
query down with its answer, in order. The record is part of the world, so nothing that lowers a
class can look into it: with and without a record the result is the same, the same numbers are
drawn, and the world is left the same (`lower_recorded`).
-/
import Downlevel.Proofs.Alike

namespace Downlevel

set_option autoImplicit false

open Sequencing

variable {ω : Type}

/-- A request for a factory and what was said to it. -/
structure Exchange where
  request : Request
  answer : Except Refusal Factory

/-- Something that the surroundings were asked, with the answer. -/
inductive Query where
  | lookup (name : String) (answer : Except ResolutionError ClassHandle)
  | naming (exchange : Exchange)

/-- The same surroundings, with a record of all queries beside their world. -/
def Surroundings.recorded (around : Surroundings ω) : Surroundings (ω × List Query) where
  resolve name world :=
    let told := around.resolve name world.1
    (told.1, told.2.1, told.2.2, world.2 ++ [.lookup name told.1])
  nameFactory request numbering world :=
    let told := around.nameFactory request numbering world.1
    (told.1, told.2.1, told.2.2, world.2 ++ [.naming ⟨request, told.1⟩])

/-- The standing without the record. -/
def Standing.unrecorded (t : Standing (ω × List Query)) : Standing ω :=
  ⟨⟨t.inquiry.owner, t.inquiry.numbering, t.inquiry.world.1⟩, t.pool⟩

/-- The work with an empty record. -/
def Work.recorded (work : Work ω) : Work (ω × List Query) :=
  ⟨(work.world, []), work.numbering, work.notes, work.owner, work.pool⟩

theorem coupled_recorded (around : Surroundings ω) (owner : String) :
    Coupled around around.recorded owner fun t t' => t = t'.unrecorded where
  pool related := by rw [related, Standing.unrecorded]
  known related := by rw [related, Standing.unrecorded]
  resolve related _ := by
    rw [related]
    exact ⟨rfl, fun _ => rfl⟩
  name related request := by
    rw [related]
    exact ⟨rfl, rfl⟩
  grow related _ _ := by
    rw [related]
    rfl

/-- The work on call sites with a record and without one. -/
theorem substitute_recorded (around : Surroundings ω) (owner : String)
    (table : List BootstrapMethod) (methods : List Member) :
    Alike (Work.Both fun t t' => t = t'.unrecorded)
      (methods.mapM (Member.substitute owner table around))
      (methods.mapM (Member.substitute owner table around.recorded)) := by
  have coupled := coupled_recorded around owner
  refine Alike.mapM fun m _ => Member.alike_substitute (fun t t' related => coupled.pool related)
    fun _ _ _ method code _ p _ => coupled.alike_replacement fun t t' related index _ => ?_
  rw [coupled.pool related]

/-- Keeping a record has no influence on anything but the record. -/
theorem lower_recorded (around : Surroundings ω) (target : Version) (bytes : Bytes)
    (numbering : Numbering) (world : ω) (queries : List Query) :
    (lower around target bytes numbering world).result =
        (lower around.recorded target bytes numbering (world, queries)).result ∧
      (lower around target bytes numbering world).numbering =
        (lower around.recorded target bytes numbering (world, queries)).numbering ∧
      (lower around target bytes numbering world).world =
        (lower around.recorded target bytes numbering (world, queries)).world.1 := by
  refine lower_coupled (Q := fun numbering world numbering' world' =>
    numbering = numbering' ∧ world = world'.1) (coupled_recorded around) ?_ ?_
  · exact fun pool => rfl
  · rintro t t' rfl
    exact ⟨rfl, rfl⟩

end Downlevel
