/-
# Downlevel.Proofs.Reworking — what the work on a body leaves

The steps on a body are told against the pool as it is when they are taken. Here the whole of
them is told against one pool that comes later, whoever was asked: `Placed.Chosen` for an
instruction and `Body.InfoReworked` for the contents of a body's attribute. A body that has a
lambda call site is assembled anew, with a call of a factory that can stand for it in the place
of each such site. Any other body keeps its bytes.

`Stages.Reached.bodiesReworked` says so of all bodies of a class that is lowered.
-/
import Downlevel.Proofs.Code.Pieces
import Downlevel.Proofs.Outcome

namespace Downlevel

set_option autoImplicit false

open Sequencing

variable {ω : Type}

/-! ## Instructions -/

section Choosing

variable (table : List BootstrapMethod) (pool : Pool)

/-- There is a lambda call site in the code. -/
def HasLambda (code : List Placed) : Prop :=
  ∃ p ∈ code, ∃ index site, p.instruction = .dynamicCall index ∧
    judge table index pool = .ok (.lambda site)

/-- What is chosen for an instruction, against a pool that holds all that is needed: a reference
to a factory that can stand for it, if it is a lambda call site. -/
inductive Placed.Chosen : Placed → Option UInt16 → Prop where
  | passed {p : Placed} (passes : p.Passes table pool) : Chosen p none
  | lambda {p : Placed} {index : UInt16} {site : CallSite} {factory : Factory} {reference : UInt16}
      (dynamic : p.instruction = .dynamicCall index)
      (judged : judge table index pool = .ok (.lambda site)) (stands : factory.StandsFor site)
      (refers : pool.memberRef reference = .ok factory.reference) : Chosen p (some reference)

variable {table pool}

/-- A step on an instruction edits the pool, and what is chosen in it can be told from any pool
that comes later. -/
theorem Scope.Replaces.chosen {around : Surroundings ω} {owner : String} {t t' : Standing ω}
    {p : Placed} {call : Option UInt16}
    (replaces : Scope.Replaces around owner table t p call t') (fits : t.pool.Fits) :
    Pool.Edited t.pool t'.pool ∧ ∀ grown, Pool.Extends t'.pool grown →
      Placed.Chosen table grown p call := by
  obtain ⟨edited, settled⟩ := replaces.settles fits
  refine ⟨edited, fun grown grows => ?_⟩
  cases replaces with
  | other => cases settled grown grows with | passed passes => exact .passed passes
  | foreign => cases settled grown grows with | passed passes => exact .passed passes
  | lambda dynamic judged asks stands interned =>
      have refers := Pool.memberRef_of_internMethodRef fits.bounded interned
      exact .lambda dynamic (judge_of_extends (edited.grown.extends.trans grows) judged) stands
        (grows.retains.memberRef refers)

theorem Placed.Chosen.picked {p : Placed} {call : Option UInt16}
    (chosen : Placed.Chosen table pool p call) : p.Picked table pool call := by
  cases chosen with
  | passed passes => exact .passed passes
  | lambda dynamic judged => exact .lambda dynamic judged

theorem picked_of_chosen {code : List Placed} {calls : List (Option UInt16)}
    (chosen : List.Forall₂ (Placed.Chosen table pool) code calls) :
    List.Forall₂ (Placed.Picked table pool) code calls :=
  chosen.imp fun _ _ => Placed.Chosen.picked

/-- The steps on a body edit the pool, and what is chosen in them can be told from any pool that
comes later. -/
theorem settle_chosen {around : Surroundings ω} {owner : String} {t t' : Standing ω}
    {code : List Placed} {calls : List (Option UInt16)}
    (rounds : Rounds (Scope.Replaces around owner table) t code calls t') (fits : t.pool.Fits) :
    Pool.Edited t.pool t'.pool ∧ ∀ grown, Pool.Extends t'.pool grown →
      List.Forall₂ (Placed.Chosen table grown) code calls := by
  obtain ⟨edited, told⟩ := settle_rounds (T := fun grown _ p call _ =>
    Placed.Chosen table grown p call) rounds fits fun p _ t call t' fits replaces =>
      replaces.chosen fits
  exact ⟨edited, fun grown grows => (told grown grows).forall₂ fun _ _ _ _ chosen => chosen⟩

/-- The instruction of each number in code that was assembled anew. -/
theorem moved_of_chosen {code bytes : Bytes} {before : List Placed} {calls : List (Option UInt16)}
    {map : OffsetMap} (decoded : decode code = .ok before)
    (chosen : List.Forall₂ (Placed.Chosen table pool) before calls)
    (assembled : assemble (replaceCalls before calls) code.length = .ok (bytes, map)) :
    ∃ moved, decode bytes = .ok moved ∧ List.Forall₂ (fun p p' => ∃ call,
      Placed.Chosen table pool p call ∧ (p.replace call).Moves map p' ∧
        (p.replace call).encode map p'.offset = .ok (p'.bytes bytes)) before moved := by
  obtain ⟨moved, again, pieces⟩ :=
    pieces_of_assemble decoded (replaced_of_picked (picked_of_chosen chosen)) assembled
  refine ⟨moved, again, ?_⟩
  -- What is known of each instruction does not involve the code as a whole any more.
  clear decoded assembled again
  induction chosen generalizing moved with
  | nil =>
      cases pieces
      exact .nil
  | cons first _ ih =>
      cases pieces with
      | cons piece others => exact .cons ⟨_, first, piece⟩ (ih _ others)

end Choosing

/-! ## Bodies -/

section Bodies

variable (table : List BootstrapMethod) (grown : Pool)

/-- The contents of the attribute that holds a body, before and after the work. Call sites are
judged in `grown`. The names of the body's attributes are looked up in a pool whose names `grown`
retains. -/
inductive Body.InfoReworked : Option Bytes → Option Bytes → Prop where
  /-- There is no body. -/
  | bare : InfoReworked none none
  /-- There is no lambda call site, and the bytes stay. -/
  | untouched {info : Bytes} {body : Body} {code : List Placed}
      (parsed : Body.parse info = .ok body) (decoded : decode body.code = .ok code)
      (passes : ∀ p ∈ code, p.Passes table grown) : InfoReworked (some info) (some info)
  /-- There is a lambda call site, and the body is assembled anew. -/
  | reworked {info bytes : Bytes} {body body' : Body} {code : List Placed}
      {calls : List (Option UInt16)} {map : OffsetMap} {pool : Pool}
      (stored : info.length < 4294967296) (parsed : Body.parse info = .ok body)
      (decoded : decode body.code = .ok code) (lambda : HasLambda table grown code)
      (chosen : List.Forall₂ (Placed.Chosen table grown) code calls)
      (assembled : assemble (replaceCalls code calls) body.code.length = .ok (bytes, map))
      (relocated : body.relocate pool map bytes = .ok body')
      (retains : Pool.Retains pool grown) : InfoReworked (some info) (some body'.write)

variable {table grown}

/-- A body that was assembled anew has the new code and reads back. Its attributes are no longer
than the body as it was stored, so their lengths can be stored as well. -/
theorem Body.parse_of_relocate {pool : Pool} {info bytes : Bytes} {body body' : Body}
    {code after : List Placed} {map : OffsetMap} (stored : info.length < 4294967296)
    (parsed : Body.parse info = .ok body) (decoded : decode body.code = .ok code)
    (replaced : List.Forall₂ Placed.Replaced code after)
    (assembled : assemble after body.code.length = .ok (bytes, map))
    (relocated : body.relocate pool map bytes = .ok body') :
    body'.code = bytes ∧ Body.parse body'.write = .ok body' := by
  obtain ⟨ending, -⟩ := tiles_of_assemble decoded replaced assembled
  obtain ⟨rfl, -⟩ := assemble_eq_ok.mp assembled
  have shorter : bytes.length ≤ body.code.length := (sends_layOut decoded replaced).2 _ _ ending
  obtain ⟨fits, rfl⟩ := Body.parse_eq_ok.mp parsed
  have bound := Body.info_length_relocate (carries_layOut decoded replaced) relocated
  refine ⟨(Body.length_relocate relocated shorter).1, Body.parse_write ?_⟩
  exact Body.fits_relocate relocated shorter fits fun a held =>
    Nat.lt_of_le_of_lt (bound a held) stored

/-- A step on a method edits the pool, and what it does to the body can be told from any pool
that comes later. -/
theorem Member.Substitutes.reworked {around : Surroundings ω} {owner : String}
    {t t' : Standing ω} {m m' : Member}
    (substitutes : Member.Substitutes around owner table t m m' t') (fits : t.pool.Fits)
    (stored : ∀ a ∈ m.attributes, a.info.length < 4294967296) :
    Pool.Edited t.pool t'.pool ∧ ∀ grown, Pool.Extends t'.pool grown →
      ∀ output, Pool.Retains grown output → ∃ info info', m.bodyInfo grown = .ok info ∧
        m'.bodyInfo output = .ok info' ∧ Body.InfoReworked table grown info info' := by
  cases substitutes with
  | bare signed bodiless =>
      refine ⟨⟨.refl _, fits⟩, fun grown grows output retains => ⟨none, none, ?_, ?_, .bare⟩⟩
      · exact bodyInfo_eq_none.mpr (grows.retains.position bodiless)
      · exact bodyInfo_eq_none.mpr ((grows.retains.trans retains).position bodiless)
  | @body _ _ text n a info signed positioned held changes =>
      cases changes with
      | untouched parsed decoded rounds unchanged =>
          obtain ⟨edited, told⟩ := settle_chosen rounds fits
          refine ⟨edited, fun grown grows output retains => ?_⟩
          have later := (edited.retains.trans grows.retains).position positioned
          have chosen := told grown grows
          rw [Member.set_info_self held]
          exact ⟨_, _, bodyInfo_eq_some.mpr ⟨n, a, later, held, rfl⟩,
            bodyInfo_eq_some.mpr ⟨n, a, retains.position later, held, rfl⟩,
            .untouched parsed decoded (passes_of_picked (picked_of_chosen chosen) unchanged)⟩
      | rebuilt parsed decoded rounds changed assembled relocated =>
          obtain ⟨edited, told⟩ := settle_chosen rounds fits
          refine ⟨edited, fun grown grows output retains => ?_⟩
          have later := (edited.retains.trans grows.retains).position positioned
          have chosen := told grown grows
          exact ⟨_, _, bodyInfo_eq_some.mpr ⟨n, a, later, held, rfl⟩,
            bodyInfo_set_info (retains.position later) held _,
            .reworked (stored a (List.mem_of_getElem? held)) parsed decoded
              (lambda_of_picked (picked_of_chosen chosen) changed) chosen assembled relocated
              grows.retains⟩

end Bodies

/-! ## Classes -/

/-- The bodies of a class that is lowered, before and after. -/
theorem Stages.Reached.bodiesReworked {around : Surroundings ω} {bytes : Bytes}
    {numbering : Numbering} {world : ω} {stages : Stages ω}
    (reached : stages.Reached around bytes numbering world) (target : Version) :
    Pool.Edited stages.input.pool stages.ended.pool ∧
      List.Forall₂ (fun m m' => ∃ info info', m.bodyInfo stages.ended.pool = .ok info ∧
          m'.bodyInfo (stages.output target).pool = .ok info' ∧
          Body.InfoReworked stages.table stages.ended.pool info info')
        stages.input.staying (stages.output target).methods := by
  obtain ⟨edited, told⟩ := settle_rounds (T := fun grown _ m m' _ => ∀ output,
      Pool.Retains grown output → ∃ info info', m.bodyInfo grown = .ok info ∧
        m'.bodyInfo output = .ok info' ∧ Body.InfoReworked stages.table grown info info')
    reached.rounds (ClassFile.fits_of_parse reached.parsed).pool fun m stays t m' t' fits substitutes =>
      substitutes.reworked fits (reached.fits_methods.2 m stays).2
  refine ⟨edited, ?_⟩
  have rounds := told stages.ended.pool fun _ _ found => found
  rw [stages.output_methods]
  have opened := rounds.comp_left (S := fun _ m m' _ => ∃ info info',
      m.bodyInfo stages.ended.pool = .ok info ∧
      m'.bodyInfo (stages.output target).pool = .ok info' ∧
      Body.InfoReworked stages.table stages.ended.pool info info')
    reached.retained.opened fun q m opened m' q' same reworked => by
      obtain ⟨name, -, rfl⟩ := same
      exact reworked _ (stages.blanked_output target).retains
  exact opened.forall₂ fun _ _ _ _ reworked => reworked

/-- What holds of every reworked body holds of the bodies of a class that is lowered. -/
theorem lower_bodies {P : List BootstrapMethod → Pool → Pool → Option Bytes → Option Bytes → Prop}
    (each : ∀ {table grown output info info'}, Body.InfoReworked table grown info info' →
      Pool.Retains grown output → P table grown output info info')
    {around : Surroundings ω} {target : Version} {bytes out : Bytes} {numbering : Numbering}
    {world : ω} (lowered : (lower around target bytes numbering world).result = .ok out) :
    ∃ c c' table grown, ClassFile.parse bytes = .ok c ∧ out = c'.write ∧
      (bytes.length < 1073741824 → ClassFile.parse out = .ok c') ∧
      c.bootstrapMethods = .ok table ∧ Pool.Grown c.pool grown ∧ Pool.Blanked grown c'.pool ∧
      List.Forall₂ (fun m m' => ∃ info info', m.bodyInfo grown = .ok info ∧
        m'.bodyInfo c'.pool = .ok info' ∧ P table grown c'.pool info info')
        c.staying c'.methods := by
  obtain ⟨stages, reached, rfl, -⟩ := stages_of_lower lowered
  obtain ⟨edited, reworked⟩ := reached.bodiesReworked target
  have blanked := stages.blanked_output target
  refine ⟨stages.input, stages.output target, stages.table, stages.ended.pool, reached.parsed, rfl,
    fun short => reached.parse_output short target, reached.bootstrap, edited.grown, blanked,
    reworked.imp ?_⟩
  rintro m m' ⟨info, info', held, held', reworked⟩
  exact ⟨info, info', held, held', each reworked blanked.retains⟩

end Downlevel
