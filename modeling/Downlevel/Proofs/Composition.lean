/-
# Downlevel.Proofs.Composition — lowering in steps

A class that was lowered can be lowered again, to any version and in any surroundings, and
the surroundings are not asked anything. The result is what lowering to the earlier of the
two versions gives at once (`lower_in_steps`); a second pass to the same version changes
nothing.

The methods of a lowered class are settled: nothing in them is left to replace
(`Member.Settled`). The stages of the second pass are written down (`Stages.again`), and
each of them is found as it was left.
-/
import Downlevel.Proofs.Outcome
import Downlevel.Proofs.Version

namespace Downlevel

set_option autoImplicit false

open Sequencing

variable {ω : Type}

/-! ## Settled methods -/

/-- The method can be read, and has no lambda call site. -/
def Member.Settled (table : List BootstrapMethod) (pool : Pool) (m : Member) : Prop :=
  (∃ text, m.signature pool = .ok text) ∧
    ∃ code, m.instructions pool = .ok code ∧ ∀ p ∈ code, p.Passes table pool

section Settled

variable {around : Surroundings ω} {owner : String} {table : List BootstrapMethod}

/-- Instructions that are no lambda call sites are passed over, one by one. -/
theorem replaces_of_passes {t : Standing ω} {code : List Placed}
    (passes : ∀ p ∈ code, p.Passes table t.pool) :
    Rounds (Scope.Replaces around owner table) t code (code.map fun _ => none) t := by
  induction code with
  | nil => exact .nil t
  | cons p code ih =>
      refine .cons ?_ (ih fun r member => passes r (List.mem_cons_of_mem p member))
      cases dynamic : p.instruction with
      | dynamicCall index =>
          obtain ⟨text, handle, judged⟩ := passes p List.mem_cons_self index dynamic
          exact .foreign dynamic judged
      | _ => exact .other (by rw [Placed.isDynamicCall, dynamic])

/-- The work on a settled method leaves it as it is and asks nothing. -/
theorem Member.Settled.substitutes {t : Standing ω} {m : Member}
    (settled : m.Settled table t.pool) : Member.Substitutes around owner table t m m t := by
  obtain ⟨⟨text, signed⟩, code, found, passes⟩ := settled
  rcases Member.instructions_eq_ok.mp found with ⟨bodiless, -⟩ | ⟨info, body, read, parsed, decoded⟩
  · exact .bare signed (bodyInfo_eq_none.mp bodiless)
  · obtain ⟨n, a, positioned, held, rfl⟩ := bodyInfo_eq_some.mp read
    have untouched : Member.SubstitutesInfo around owner table t a.info a.info t :=
      .untouched parsed decoded (replaces_of_passes passes) (by simp)
    have substitutes := Member.Substitutes.body signed positioned held untouched
    rwa [set_info_self held] at substitutes

theorem rounds_of_settled {t : Standing ω} {methods : List Member}
    (settled : ∀ m ∈ methods, m.Settled table t.pool) :
    Rounds (Member.Substitutes around owner table) t methods methods t := by
  induction methods with
  | nil => exact .nil t
  | cons m methods ih =>
      exact .cons (settled m List.mem_cons_self).substitutes
        (ih fun m' member => settled m' (List.mem_cons_of_mem m member))

/-- A method that was worked on is settled. -/
theorem Member.Changes.settled {grown output : Pool} {q q' : Inquiry ω} {m m' : Member}
    (changes : Member.Changes around owner table grown output q m m' q')
    (signed : ∃ text, m.signature grown = .ok text) : m'.Settled table grown := by
  cases changes with
  | bare bodiless =>
      exact ⟨signed, [], instructions_eq_ok.mpr (.inl ⟨bodyInfo_eq_none.mpr bodiless, rfl⟩),
        fun p member => absurd member List.not_mem_nil⟩
  | untouched positioned held parsed decoded passes =>
      exact ⟨signed, _, instructions_eq_ok.mpr (.inr ⟨_, _,
        bodyInfo_eq_some.mpr ⟨_, _, positioned, held, rfl⟩, parsed, decoded⟩), passes⟩
  | rebuilt positioned held parsed decoded lambda fits _ decoded' rounds =>
      exact ⟨signed, _, instructions_eq_ok.mpr (.inr ⟨_, _, bodyInfo_set_info positioned held _,
        Body.parse_write fits, decoded'⟩), passes_of_rewritten rounds⟩

end Settled

/-! ## The second pass -/

namespace Stages

/-- The stages of the second pass: everything is found as it was left. -/
def again {ω' : Type} (stages : Stages ω) (target : Version) (table : List BootstrapMethod)
    (inquiry : Inquiry ω') : Stages ω' :=
  { input := stages.output target
    owner := stages.owner
    table := table
    methods := stages.replaced
    replaced := stages.replaced
    ended := ⟨inquiry, (stages.output target).pool⟩
    code := stages.code }

/-- A class with the methods and the pool that it has is itself. -/
theorem untidied_again {ω' : Type} (stages : Stages ω) (target : Version)
    (table : List BootstrapMethod) (inquiry : Inquiry ω') :
    (stages.again target table inquiry).untidied = stages.output target := by
  have methods := stages.output_methods target
  show { stages.output target with methods := stages.replaced } = stages.output target
  rw [← methods]

/-- The second pass writes what one pass to the earlier target writes. -/
theorem output_again {ω' : Type} {stages : Stages ω} (tidies : stages.untidied.Tidies stages.code)
    (first second : Version) (table : List BootstrapMethod) (inquiry : Inquiry ω') :
    (stages.again first table inquiry).output second = stages.output (first.earlier second) := by
  have version := stages.output_version first
  unfold output
  rw [untidied_again]
  show ((stages.output first).atVersion ((stages.output first).version.earlier second)).tidied _ = _
  rw [version, ← Version.earlier_assoc]
  exact ClassFile.tidied_atVersion_again tidies Version.dynamicLinkage_of_earlier

namespace Reached

variable {around : Surroundings ω} {bytes : Bytes} {numbering : Numbering} {world : ω}
  {stages : Stages ω} (reached : stages.Reached around bytes numbering world)
  (short : bytes.length < 1073741824)
include reached short

/-- Each method that is written comes from one that was read: it was opened, and then only its
attributes changed. -/
theorem origin {m' : Member} (written : m' ∈ stages.replaced) :
    ∃ m ∈ stages.input.staying, ∃ name attributes, m.nameText stages.input.pool = .ok name ∧
      m' = { m.opened name with attributes := attributes } := by
  obtain ⟨-, rounds⟩ := reached.settles short ⟨0, 0⟩
  have framed : List.Forall₂ (fun m m' => ∃ attributes, m' = { m with attributes := attributes })
      stages.methods stages.replaced := rounds.forall₂ fun _ _ _ _ changed => changed.2.frame
  obtain ⟨opened, stays, attributes, rfl⟩ := round_of_mem framed written
  obtain ⟨m, member, name, named, rfl⟩ := round_of_mem reached.retained.opened stays
  exact ⟨m, member, name, attributes, named, rfl⟩

theorem settled {m' : Member} (written : m' ∈ stages.replaced) :
    m'.Settled stages.table stages.ended.pool := by
  obtain ⟨-, rounds⟩ := reached.settles short ⟨0, 0⟩
  have each : List.Forall₂ (fun _ m' => m'.Settled stages.table stages.ended.pool)
      stages.methods stages.replaced :=
    rounds.forall₂ fun _ _ _ _ changed => changed.2.settled changed.1
  obtain ⟨m, -, settled⟩ := round_of_mem each written
  exact settled

/-- Whatever is left of the bootstrap table, every method is settled. -/
theorem table_again (target : Version) :
    ∃ table, (stages.output target).bootstrapMethods = .ok table ∧
      ∀ m' ∈ stages.replaced, m'.Settled table (stages.output target).pool := by
  obtain ⟨edited, -⟩ := reached.settles short target
  have blanked := stages.blanked_output target
  have found : stages.untidied.bootstrapMethods = .ok stages.table :=
    bootstrapMethods_of_retains edited.retains rfl reached.bootstrap
  rw [← bootstrapMethods_congr (stages.untidied.atVersion_pool _)
    (stages.untidied.atVersion_attributes (stages.input.version.earlier target))] at found
  rcases ClassFile.bootstrapMethods_tidied (ClassFile.tidies_atVersion.mpr reached.tidies) found with
    ⟨needed, kept⟩ | ⟨unneeded, gone⟩
  · have same : (stages.output target).pool = stages.ended.pool := by
      rw [output, ClassFile.tidied_of_needed needed, ClassFile.atVersion_pool]
      rfl
    refine ⟨stages.table, kept, fun m' written => ?_⟩
    rw [same]
    exact reached.settled short written
  · refine ⟨[], gone, fun m' written => ?_⟩
    obtain ⟨⟨text, signed⟩, code, own, -⟩ := reached.settled short written
    refine ⟨⟨text, blanked.retains.signature signed⟩, code,
      blanked.retains.instructions own, fun p member index dynamic => ?_⟩
    -- Where the table has gone, no dynamic call is left that could need it.
    have plain := (Bool.or_eq_false_iff.mp unneeded).1
    have held := ClassFile.mem_instructions reached.tidies.1 written own member
    have call : p.isDynamicCall = true := by rw [Placed.isDynamicCall, dynamic]
    rw [List.any_eq_false] at plain
    exact absurd call (plain p held)

/-- The methods that were written all stay. -/
theorem retained_again (target : Version) :
    (stages.output target).RetainsMethods stages.replaced := by
  obtain ⟨edited, -⟩ := reached.settles short target
  have retains := edited.retains.trans (stages.blanked_output target).retains
  rw [← stages.output_methods target]
  refine ClassFile.retainsMethods_self fun m' written => ?_
  rw [stages.output_methods] at written
  obtain ⟨⟨text, signed⟩, -⟩ := reached.settled short written
  obtain ⟨m, member, name, attributes, named, rfl⟩ := reached.origin short written
  refine ⟨?_, ⟨name, retains.utf8 named, ?_⟩, ?_⟩
  · rw [ClassFile.isInterface, (stages.output_sameFrame target).access]
    exact (m.stays_opened _ name).trans (List.mem_filter.mp member).2
  · have twice := m.opened_opened name
    exact congrArg (fun opened : Member => { opened with attributes := attributes }) twice
  · obtain ⟨_, -, next⟩ := bind_eq_ok.mp signed
    obtain ⟨descriptor, described, -⟩ := bind_eq_ok.mp next
    exact ⟨descriptor, (stages.blanked_output target).retains.utf8 described⟩

/-- The stages of the second pass are reached in any surroundings. -/
theorem again (target : Version) :
    ∃ table, ∀ (ω' : Type) (around' : Surroundings ω') (numbering' : Numbering) (world' : ω'),
      (stages.again target table ⟨none, numbering', world'⟩).Reached around'
        (stages.output target).write numbering' world' := by
  obtain ⟨edited, -⟩ := reached.settles short target
  have retains := edited.retains.trans (stages.blanked_output target).retains
  obtain ⟨table, found, settled⟩ := reached.table_again short target
  refine ⟨table, fun ω' around' numbering' world' => ?_⟩
  refine ⟨reached.parse_output short target, ?_, reached.retained_again short target, found,
    rounds_of_settled settled, ?_⟩
  · show (stages.output target).pool.className (stages.output target).thisClass = .ok stages.owner
    rw [(stages.output_sameFrame target).thisClass]
    exact retains.className reached.named
  · rw [untidied_again]
    exact ClassFile.tidies_tidied (ClassFile.tidies_atVersion.mpr reached.tidies)

end Reached

end Stages

/-- Lowering in steps is lowering at once. What was lowered to `first` can be lowered to
`second` by anyone, with no class looked up, no factory named and no number drawn; and the
result is that of lowering to the earlier version in the first place. -/
theorem lower_in_steps {around : Surroundings ω} {first second : Version} {bytes out : Bytes}
    {numbering : Numbering} {world : ω} (short : bytes.length < 1073741824)
    (lowered : (lower around first bytes numbering world).result = .ok out) :
    ∃ final, (lower around (first.earlier second) bytes numbering world).result = .ok final ∧
      (∀ (ω' : Type) (around' : Surroundings ω') (numbering' : Numbering) (world' : ω'),
        ∃ notes, lower around' second out numbering' world' =
          ⟨.ok final, notes, numbering', world'⟩) ∧
      (first = second → final = out) := by
  obtain ⟨stages, reached, rfl, -⟩ := stages_of_lower lowered
  obtain ⟨table, again⟩ := reached.again short first
  refine ⟨(stages.output (first.earlier second)).write, ?_, ?_, ?_⟩
  · obtain ⟨notes, ran⟩ := lower_eq_ok.mpr ⟨stages, reached, rfl, rfl, rfl⟩
    rw [ran]
  · intro ω' around' numbering' world'
    refine lower_eq_ok.mpr ⟨_, again ω' around' numbering' world', ?_, rfl, rfl⟩
    rw [Stages.output_again reached.tidies]
  · rintro rfl
    rw [Version.earlier_self]

/-- The class is lowered by a step to a version with dynamic linkage and one below it. -/
theorem lower_in_steps_looping :
    Looping.input.write.length < 1073741824 ∧ ∃ out,
      (lower Looping.surroundings ⟨51, 0⟩ Looping.input.write .fresh ()).result = .ok out ∧
      ∃ final, (lower Looping.surroundings (Version.earlier ⟨51, 0⟩ ⟨50, 0⟩) Looping.input.write
          .fresh ()).result = .ok final ∧
        (∀ (ω' : Type) (around' : Surroundings ω') (numbering' : Numbering) (world' : ω'),
          ∃ notes, lower around' ⟨50, 0⟩ out numbering' world' =
            ⟨.ok final, notes, numbering', world'⟩) ∧
        ((⟨51, 0⟩ : Version) = ⟨50, 0⟩ → final = out) :=
  ⟨Looping.short, _, Looping.lowered _, lower_in_steps Looping.short (Looping.lowered _)⟩

end Downlevel
