/-
# Downlevel.Proofs.Footprint — what lowering touches

What is written can be read, and it is the class that was read but for a few things that
are said exactly (`ClassFile.EditedInto`): the version is the earlier one; bridges of
interfaces are gone; bodies of lambdas are not private; bodies with lambda call sites have
changed; bootstrap tables may be gone; and the pool has grown at its end, while inside it
constants that serve dynamic linkage may be blanked. Everything else is as it was
(`lower_edits_only`).
-/
import Downlevel.Proofs.Outcome
import Downlevel.Proofs.Version

namespace Downlevel

set_option autoImplicit false

open Sequencing

variable {ω : Type}

/-! ## Pools -/

/-- Every slot is as it was or, without dynamic linkage, may have had a constant that served
it blanked; and parts of method references follow. -/
def Pool.EditedInto (linkage : Bool) (before after : Pool) : Prop :=
  ∃ (kept : List (Option Constant)) (added : List Constant),
    after.slots.toList = kept ++ added.map some ∧
    List.Forall₂ BlankedSlot before.slots.toList kept ∧
    (linkage = true → kept = before.slots.toList) ∧
    ∀ constant ∈ added, constant.makesMethodRef = true

theorem Constant.servesLinkage_of_makesMethodRef {constant : Constant}
    (part : constant.makesMethodRef = true) : constant.servesLinkage = false := by
  cases constant with
  | utf8 | classRef | nameAndType | methodRef => rfl
  | _ => cases part

/-- Parts of method references are never blanked. -/
theorem Pool.blanked_of_parts {added : List Constant} {slots : List (Option Constant)}
    (parts : ∀ constant ∈ added, constant.makesMethodRef = true)
    (blanked : List.Forall₂ BlankedSlot (added.map some) slots) : slots = added.map some := by
  induction added generalizing slots with
  | nil =>
      cases blanked
      rfl
  | cons constant added ih =>
      cases blanked with
      | cons first others =>
          rw [ih (fun other member => parts other (List.mem_cons_of_mem _ member)) others]
          rcases first with rfl | ⟨other, same, linkage, -⟩
          · rfl
          · obtain rfl := Option.some.inj same
            rw [Constant.servesLinkage_of_makesMethodRef (parts constant List.mem_cons_self)] at linkage
            cases linkage

theorem Pool.editedInto_of_blanked {linkage : Bool} {before grown after : Pool}
    (growth : Grown before grown) (blanked : Blanked grown after)
    (unblanked : linkage = true → after = grown) : EditedInto linkage before after := by
  obtain ⟨added, parts, slots⟩ := growth
  unfold Blanked at blanked
  rw [slots] at blanked
  have front := List.forall₂_take before.slots.toList.length blanked
  have back := List.forall₂_drop before.slots.toList.length blanked
  rw [List.take_left] at front
  rw [List.drop_left] at back
  refine ⟨after.slots.toList.take before.slots.toList.length, added, ?_, front, fun holds => ?_, parts⟩
  · rw [← blanked_of_parts parts back, List.take_append_drop]
  · rw [unblanked holds, slots, List.take_left]

/-! ## Methods -/

/-- What becomes of a method that stays. Its name is looked up in `pool`, its body and the
call sites in `grown`. -/
inductive Member.EditedInto (table : List BootstrapMethod) (pool grown : Pool) :
    Member → Member → Prop where
  /-- It may lose its private flag, and nothing else. -/
  | opened {m : Member} {name : String} (named : m.nameText pool = .ok name) :
      EditedInto table pool grown m (m.opened name)
  /-- The contents of its first attribute that holds a body are replaced, since there is a
  lambda call site in its code. -/
  | rebuilt {m : Member} {name : String} {n : Nat} {a : Attribute} {body : Body}
      {code : List Placed} (named : m.nameText pool = .ok name)
      (positioned : m.bodyPosition grown = .ok (some n)) (held : m.attributes[n]? = some a)
      (parsed : Body.parse a.info = .ok body) (decoded : decode body.code = .ok code)
      (lambda : ∃ p ∈ code, ∃ index site, p.instruction = .dynamicCall index ∧
        judge table index grown = .ok (.lambda site)) (info : Bytes) :
      EditedInto table pool grown m { m.opened name with
        attributes := m.attributes.set n { a with info := info } }

theorem Member.Changes.editedInto {around : Surroundings ω} {owner : String}
    {table : List BootstrapMethod} {pool grown output : Pool} {q q' : Inquiry ω} {m m' : Member}
    {name : String} (named : m.nameText pool = .ok name)
    (changes : Member.Changes around owner table grown output q (m.opened name) m' q') :
    Member.EditedInto table pool grown m m' := by
  cases changes with
  | bare => exact .opened named
  | untouched => exact .opened named
  | rebuilt positioned held parsed decoded lambda =>
      exact .rebuilt named positioned held parsed decoded lambda _

/-! ## Classes -/

/-- What becomes of a class that is lowered to a target. -/
structure ClassFile.EditedInto (target : Version) (table : List BootstrapMethod) (grown : Pool)
    (c c' : ClassFile) : Prop where
  /-- The version is the minimum of the declared one and the target. -/
  version : target.Before c.version ∧ c'.version = target ∨
    ¬ target.Before c.version ∧ c'.version = c.version
  /-- Flags, class, superclass, interfaces and fields stay. -/
  frame : c.SameFrame c'
  /-- The methods keep their order, and only bridges of interfaces are missing. -/
  methods : List.Forall₂ (Member.EditedInto table c.pool grown) c.staying c'.methods
  /-- The attributes keep their order, and only bootstrap tables may be missing. -/
  attributes : c'.attributes = c.attributes ∨
    c'.attributes = Attribute.withoutBootstrap c'.pool c.attributes
  pool : Pool.EditedInto c'.version.dynamicLinkage c.pool c'.pool

/-- What is written can be read, and nothing is touched but what `ClassFile.EditedInto` says. -/
theorem lower_edits_only {around : Surroundings ω} {target : Version} {bytes out : Bytes}
    {numbering : Numbering} {world : ω} (short : bytes.length < 1073741824)
    (lowered : (lower around target bytes numbering world).result = .ok out) :
    ∃ c c' table grown, ClassFile.parse bytes = .ok c ∧ ClassFile.parse out = .ok c' ∧
      c.bootstrapMethods = .ok table ∧ Pool.Grown c.pool grown ∧ Pool.Blanked grown c'.pool ∧
      c.EditedInto target table grown c' := by
  obtain ⟨stages, reached, rfl, -⟩ := stages_of_lower lowered
  obtain ⟨edited, rounds⟩ := reached.settles short target
  have blanked := stages.blanked_output target
  refine ⟨stages.input, stages.output target, stages.table, stages.ended.pool, reached.parsed,
    reached.parse_output short target, reached.bootstrap, edited.grown, blanked,
    ?_, stages.output_sameFrame target, ?_, reached.attributes_output target,
    Pool.editedInto_of_blanked edited.grown blanked ?_⟩
  · rw [stages.output_version]
    exact Version.earlier_cases _ _
  · rw [stages.output_methods]
    have rewritten := rounds.comp_left (S := fun _ m m' _ =>
      Member.EditedInto stages.table stages.input.pool stages.ended.pool m m')
      reached.retained.opened fun q m opened m' q' same changed => by
        obtain ⟨name, named, rfl⟩ := same
        exact changed.2.editedInto named
    exact rewritten.forall₂ fun _ _ _ _ held => held
  · rw [stages.output_version]
    exact stages.output_pool_of_linkage

/-- The class loses its bootstrap table, and its constants for dynamic linkage are blanked. -/
theorem lower_edits_only_looping :
    Looping.input.write.length < 1073741824 ∧ ∃ out,
      (lower Looping.surroundings ⟨50, 0⟩ Looping.input.write .fresh ()).result = .ok out ∧
      ∃ c c' table grown, ClassFile.parse Looping.input.write = .ok c ∧
        ClassFile.parse out = .ok c' ∧ c.bootstrapMethods = .ok table ∧
        Pool.Grown c.pool grown ∧ Pool.Blanked grown c'.pool ∧
        c.EditedInto ⟨50, 0⟩ table grown c' :=
  ⟨Looping.short, _, Looping.lowered _, lower_edits_only Looping.short (Looping.lowered _)⟩

end Downlevel
