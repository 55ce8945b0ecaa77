/-
# Downlevel.Proofs.CallSites — what becomes of the code

`lower_rewrites_call_sites` compares the bodies of the methods that stay with those that
are written. A body without lambda call sites keeps its bytes. Any other body keeps its
instructions one by one, and each lambda call site among them becomes a static call of the
factory that the surroundings named for it when its turn came. A target that was in front
of the instruction of some number is in front of the instruction of that number.

The surroundings are asked in the order of the methods and of their code, from the state
they were handed to the state they are left in.
-/
import Downlevel.Proofs.Outcome

namespace Downlevel

set_option autoImplicit false

open Sequencing

variable {ω : Type}

/-! ## Bodies -/

section Rewriting

variable (around : Surroundings ω) (owner : String) (table : List BootstrapMethod)
  (grown output : Pool)

/-- The contents of the attribute that holds a body, before and after. Call sites are judged
in `grown`, and references are followed in `output`. -/
inductive Body.InfoRewritten : Inquiry ω → Option Bytes → Option Bytes → Inquiry ω → Prop where
  /-- There is no body. -/
  | bare {q : Inquiry ω} : InfoRewritten q none none q
  /-- There is no lambda call site, and nothing is asked. -/
  | untouched {q : Inquiry ω} {info : Bytes} {body : Body} {code : List Placed}
      (parsed : Body.parse info = .ok body) (decoded : decode body.code = .ok code)
      (passes : ∀ p ∈ code, p.Passes table grown) : InfoRewritten q (some info) (some info) q
  /-- There is a lambda call site, and every instruction has become one. -/
  | rewritten {q q' : Inquiry ω} {info info' : Bytes} {body body' : Body} {code code' : List Placed}
      (parsed : Body.parse info = .ok body) (decoded : decode body.code = .ok code)
      (lambda : ∃ p ∈ code, ∃ index site, p.instruction = .dynamicCall index ∧
        judge table index grown = .ok (.lambda site))
      (parsed' : Body.parse info' = .ok body') (decoded' : decode body'.code = .ok code')
      (rounds : Rounds (Placed.Rewritten around owner table grown output
        (SameStop code body.code.length code' body'.code.length)) q code code' q') :
      InfoRewritten q (some info) (some info') q'

/-- The bodies of a method before and after. -/
def Member.BodyRewritten (q : Inquiry ω) (m m' : Member) (q' : Inquiry ω) : Prop :=
  ∃ info info', m.bodyInfo grown = .ok info ∧ m'.bodyInfo output = .ok info' ∧
    Body.InfoRewritten around owner table grown output q info info' q'

variable {around owner table grown output}

/-- A change of a method is one of its body. -/
theorem Member.Changes.bodyRewritten {q q' : Inquiry ω} {m m' : Member}
    (changes : Member.Changes around owner table grown output q m m' q')
    (retains : Pool.Retains grown output) :
    Member.BodyRewritten around owner table grown output q m m' q' := by
  cases changes with
  | bare bodiless =>
      exact ⟨none, none, bodyInfo_eq_none.mpr bodiless,
        bodyInfo_eq_none.mpr (retains.position bodiless), .bare⟩
  | untouched positioned held parsed decoded passes =>
      exact ⟨_, _, bodyInfo_eq_some.mpr ⟨_, _, positioned, held, rfl⟩,
        bodyInfo_eq_some.mpr ⟨_, _, retains.position positioned, held, rfl⟩,
        .untouched parsed decoded passes⟩
  | rebuilt positioned held parsed decoded lambda fits _ decoded' rounds =>
      exact ⟨_, _, bodyInfo_eq_some.mpr ⟨_, _, positioned, held, rfl⟩,
        bodyInfo_set_info (retains.position positioned) held _,
        .rewritten parsed decoded lambda (Body.parse_write fits) decoded' rounds⟩

end Rewriting

/-! ## Classes -/

/-- Lambda call sites are replaced one by one and in place, and nothing else in a body changes
its meaning. The sites are judged in `grown`: the pool that was read with constants appended,
in which all that could be read before reads the same. -/
theorem lower_rewrites_call_sites {around : Surroundings ω} {target : Version}
    {bytes out : Bytes} {numbering : Numbering} {world : ω} (short : bytes.length < 1073741824)
    (lowered : (lower around target bytes numbering world).result = .ok out) :
    ∃ c c' owner table grown handle, ClassFile.parse bytes = .ok c ∧ ClassFile.parse out = .ok c' ∧
      c.name = .ok owner ∧ c.bootstrapMethods = .ok table ∧
      Pool.Grown c.pool grown ∧ Pool.Blanked grown c'.pool ∧
      Rounds (Member.BodyRewritten around owner table grown c'.pool)
        ⟨none, numbering, world⟩ c.staying c'.methods
        ⟨handle, (lower around target bytes numbering world).numbering,
          (lower around target bytes numbering world).world⟩ := by
  obtain ⟨stages, reached, rfl, numbered, ended⟩ := stages_of_lower lowered
  obtain ⟨edited, rounds⟩ := reached.settles short target
  have blanked := stages.blanked_output target
  refine ⟨stages.input, stages.output target, stages.owner, stages.table, stages.ended.pool,
    stages.ended.inquiry.owner, reached.parsed, reached.parse_output short target, reached.named,
    reached.bootstrap, edited.grown, blanked, ?_⟩
  rw [← numbered, ← ended, stages.output_methods]
  refine rounds.comp_left reached.retained.opened fun q m opened m' q' same changed => ?_
  obtain ⟨name, -, rfl⟩ := same
  exact changed.2.bodyRewritten blanked.retains

/-- A loop back over a call site, in a class that is lowered below dynamic linkage. -/
theorem lower_rewrites_looping :
    Looping.input.write.length < 1073741824 ∧ ∃ out,
      (lower Looping.surroundings ⟨50, 0⟩ Looping.input.write .fresh ()).result = .ok out ∧
      ∃ c c' owner table grown handle, ClassFile.parse Looping.input.write = .ok c ∧
        ClassFile.parse out = .ok c' ∧ c.name = .ok owner ∧ c.bootstrapMethods = .ok table ∧
        Pool.Grown c.pool grown ∧ Pool.Blanked grown c'.pool ∧
        Rounds (Member.BodyRewritten Looping.surroundings owner table grown c'.pool)
          ⟨none, .fresh, ()⟩ c.staying c'.methods
          ⟨handle, (lower Looping.surroundings ⟨50, 0⟩ Looping.input.write .fresh ()).numbering,
            (lower Looping.surroundings ⟨50, 0⟩ Looping.input.write .fresh ()).world⟩ :=
  ⟨Looping.short, _, Looping.lowered _, lower_rewrites_call_sites Looping.short (Looping.lowered _)⟩

end Downlevel
