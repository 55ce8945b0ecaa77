/-
# Downlevel.Proofs.Coverage — tables cover the instructions they covered

A layout leads from the code of a body to the new code: it sends the offsets of the
instructions, in their order, to those of the new instructions, and the end to the end. So an
offset keeps naming the instruction of the same number, and a range whose ends are sent
covers the instructions of the same numbers (`OffsetMap.Leads`).

`lower_keeps_coverage` says of every body what that means for its handlers, line numbers and
ranges of variables (`Body.InfoFollows`). A class is refused if a body with a lambda call site
names an offset at which no instruction starts and the code does not end.
-/
import Downlevel.Proofs.Code.Refusals
import Downlevel.Proofs.Reworking

namespace Downlevel

set_option autoImplicit false

open Sequencing

variable {ω : Type}

/-! ## Layouts -/

/-- The map leads from one code to another: every stop goes to the stop of the same number, and
a range whose ends are sent covers the instructions of the same numbers. -/
structure OffsetMap.Leads (map : OffsetMap) (code : List Placed) (length : Nat)
    (code' : List Placed) (length' : Nat) : Prop where
  sends : ∀ o m, map.Sends o m ↔ SameStop code length code' length' o m
  covers : ∀ {start stop start' stop' : Nat}, map.Sends start start' → map.Sends stop stop' →
    ∀ (k : Nat) (p p' : Placed), code[k]? = some p → code'[k]? = some p' →
      (start ≤ p.offset ∧ p.offset < stop ↔ start' ≤ p'.offset ∧ p'.offset < stop')

theorem getElem?_stops {code : List Placed} {k : Nat} {p : Placed} (held : code[k]? = some p)
    (length : Nat) : (stops code length)[k]? = some p.offset := by
  obtain ⟨inside, rfl⟩ := List.getElem?_eq_some_iff.mp held
  rw [stops, List.getElem?_append_left (by simpa using inside), List.getElem?_map, held]
  rfl

/-- The map of assembled code leads to what the code decodes to. -/
theorem leads_of_assemble {code bytes : Bytes} {before after : List Placed} {map : OffsetMap}
    (decoded : decode code = .ok before)
    (replaced : List.Forall₂ Placed.Replaced before after)
    (assembled : assemble after code.length = .ok (bytes, map)) :
    map.Carries before code.length ∧ bytes.length ≤ code.length ∧
      ∃ moved, decode bytes = .ok moved ∧ map.Leads before code.length moved bytes.length := by
  obtain ⟨ending, moved, moves, tiles⟩ := tiles_of_assemble decoded replaced assembled
  have sends := sends_iff_sameStop decoded replaced assembled moves tiles
  obtain ⟨rfl, -⟩ := assemble_eq_ok.mp assembled
  have carries := carries_layOut decoded replaced
  refine ⟨carries, carries.shrinks _ _ ending, moved, decode_eq_ok.mpr tiles, sends, ?_⟩
  intro start stop start' stop' sendsStart sendsStop k p p' held held'
  have here := (sends p.offset p'.offset).mpr
    ⟨k, getElem?_stops held code.length, getElem?_stops held' bytes.length⟩
  have before := carries.ordered here sendsStart
  have behind := carries.ordered here sendsStop
  omega

/-! ## Bodies -/

section Bodies

variable (table : List BootstrapMethod) (grown output : Pool)

/-- The contents of the attribute that holds a body, before and after. Call sites are judged in
`grown`, and the names of attributes are looked up in `output`. -/
inductive Body.InfoFollows : Option Bytes → Option Bytes → Prop where
  /-- There is no body. -/
  | bare : InfoFollows none none
  /-- There is no lambda call site, and the bytes stay. -/
  | untouched {info : Bytes} {body : Body} {code : List Placed}
      (parsed : Body.parse info = .ok body) (decoded : decode body.code = .ok code)
      (passes : ∀ p ∈ code, p.Passes table grown) : InfoFollows (some info) (some info)
  /-- There is a lambda call site, and the body has moved along the layout of its new code. -/
  | moved {info info' : Bytes} {body body' : Body} {code after code' : List Placed}
      {map : OffsetMap} (parsed : Body.parse info = .ok body)
      (decoded : decode body.code = .ok code) (lambda : HasLambda table grown code)
      (replaced : List.Forall₂ Placed.Replaced code after)
      (assembled : assemble after body.code.length = .ok (body'.code, map))
      (decoded' : decode body'.code = .ok code')
      (leads : map.Leads code body.code.length code' body'.code.length)
      (written : info' = body'.write) (parsed' : Body.parse info' = .ok body')
      (named : ∀ o, body.Names output o → o ∈ stops code body.code.length)
      (moves : body.code.length ≤ 65535 → body.Moves output map body') :
      InfoFollows (some info) (some info')

/-- The bodies of a method before and after. -/
def Member.BodyFollows (m m' : Member) : Prop :=
  ∃ info info', m.bodyInfo grown = .ok info ∧ m'.bodyInfo output = .ok info' ∧
    Body.InfoFollows table grown output info info'

variable {table grown output}

/-- A body that is assembled anew has moved along. -/
theorem Body.infoFollows_of_assemble {pool : Pool} {info bytes : Bytes} {body body' : Body}
    {code after : List Placed} {map : OffsetMap} (stored : info.length < 4294967296)
    (parsed : Body.parse info = .ok body) (decoded : decode body.code = .ok code)
    (lambda : HasLambda table grown code) (replaced : List.Forall₂ Placed.Replaced code after)
    (assembled : assemble after body.code.length = .ok (bytes, map))
    (relocated : body.relocate pool map bytes = .ok body') (retains : Pool.Retains pool output) :
    Body.InfoFollows table grown output (some info) (some body'.write) := by
  obtain ⟨carries, -, code', decoded', leads⟩ := leads_of_assemble decoded replaced assembled
  obtain ⟨rfl, parsed'⟩ :=
    Body.parse_of_relocate stored parsed decoded replaced assembled relocated
  refine .moved parsed decoded lambda replaced assembled decoded' leads rfl parsed'
    (fun o names => Body.stop_of_names carries relocated retains names) fun short => ?_
  exact (Body.moves_of_relocate carries (by omega) relocated).retains retains

/-- A reworked body follows. -/
theorem Body.InfoReworked.follows {info info' : Option Bytes}
    (reworked : Body.InfoReworked table grown info info') (retains : Pool.Retains grown output) :
    Body.InfoFollows table grown output info info' := by
  cases reworked with
  | bare => exact .bare
  | untouched parsed decoded passes => exact .untouched parsed decoded passes
  | reworked stored parsed decoded lambda chosen assembled relocated retained =>
      have replaced := replaced_of_picked (picked_of_chosen chosen)
      exact Body.infoFollows_of_assemble stored parsed decoded lambda replaced assembled
        relocated (retained.trans retains)

end Bodies

/-! ## Classes -/

/-- The bodies of the methods that are written follow those that stay. -/
theorem Stages.Reached.bodiesFollow {around : Surroundings ω} {bytes : Bytes}
    {numbering : Numbering} {world : ω} {stages : Stages ω}
    (reached : stages.Reached around bytes numbering world) (target : Version) :
    Pool.Edited stages.input.pool stages.ended.pool ∧
      List.Forall₂ (Member.BodyFollows stages.table stages.ended.pool (stages.output target).pool)
        stages.input.staying (stages.output target).methods := by
  obtain ⟨edited, reworked⟩ := reached.bodiesReworked target
  refine ⟨edited, reworked.imp ?_⟩
  rintro m m' ⟨info, info', held, held', reworked⟩
  exact ⟨info, info', held, held', reworked.follows (stages.blanked_output target).retains⟩

/-- The body in `info` has a lambda call site in its code and names an offset at which no
instruction starts and the code does not end. -/
structure Body.NamesStray (table : List BootstrapMethod) (pool : Pool) (info : Bytes) (body : Body)
    (code : List Placed) : Prop where
  parsed : Body.parse info = .ok body
  decoded : decode body.code = .ok code
  lambda : HasLambda table pool code
  stray : ∃ o, body.Names pool o ∧ o ∉ stops code body.code.length

namespace Body.NamesStray

variable {table : List BootstrapMethod} {pool : Pool} {info : Bytes} {body : Body}
  {code : List Placed} (names : Body.NamesStray table pool info body code)
include names

/-- Nothing can follow such a body. -/
theorem not_infoFollows {grown output : Pool} (grows : Pool.Extends pool grown)
    (retains : Pool.Retains grown output) (info' : Option Bytes) :
    ¬ Body.InfoFollows table grown output (some info) info' := by
  intro follows
  cases follows with
  | untouched parsed decoded passes =>
      cases names.parsed.symm.trans parsed
      cases names.decoded.symm.trans decoded
      obtain ⟨p, member, index, site, dynamic, judged⟩ := names.lambda
      obtain ⟨text, handle, foreign⟩ := passes p member index dynamic
      cases (judge_of_extends grows judged).symm.trans foreign
  | moved parsed decoded _ _ _ _ _ _ _ named _ =>
      cases names.parsed.symm.trans parsed
      cases names.decoded.symm.trans decoded
      obtain ⟨o, named', stray⟩ := names.stray
      exact stray (named o (named'.retains (grows.retains.trans retains)))

/-- However calls are replaced in it, moving it fails and says why. -/
theorem refused {later : Pool} (retains : Pool.Retains pool later) {after : List Placed}
    (replaced : List.Forall₂ Placed.Replaced code after) {bytes : Bytes} {map : OffsetMap}
    (assembled : assemble after body.code.length = .ok (bytes, map)) :
    ∃ e, body.relocate later map bytes = .error e ∧ body.Refused later map e := by
  obtain ⟨o, named, stray⟩ := names.stray
  obtain ⟨carries, -⟩ := leads_of_assemble names.decoded replaced assembled
  cases moving : body.relocate later map bytes with
  | error e => exact ⟨e, rfl, body.fails_relocate later map bytes e moving⟩
  | ok moved =>
      exact absurd (Body.stop_of_names carries moving (fun _ _ _ found => found)
        (named.retains retains)) stray

end Body.NamesStray

/-- Handlers, line numbers and ranges of variables keep covering the instructions they covered,
as `Body.InfoFollows` says of each body. A class in which a body with a lambda call site names
an offset that is no stop of its code is refused. -/
theorem lower_keeps_coverage (around : Surroundings ω) (target : Version) (bytes : Bytes)
    (numbering : Numbering) (world : ω) :
    (∀ out, (lower around target bytes numbering world).result = .ok out →
      ∃ c c' table grown, ClassFile.parse bytes = .ok c ∧ out = c'.write ∧
        (bytes.length < 1073741824 → ClassFile.parse out = .ok c') ∧
        c.bootstrapMethods = .ok table ∧ Pool.Grown c.pool grown ∧ Pool.Blanked grown c'.pool ∧
        List.Forall₂ (Member.BodyFollows table grown c'.pool) c.staying c'.methods) ∧
    ∀ c table m info body code, ClassFile.parse bytes = .ok c → c.bootstrapMethods = .ok table →
      m ∈ c.staying → m.bodyInfo c.pool = .ok (some info) →
      Body.NamesStray table c.pool info body code →
      (∃ failure, (lower around target bytes numbering world).result = .error failure) ∧
      ∀ later, Pool.Retains c.pool later → ∀ after moved map,
        List.Forall₂ Placed.Replaced code after →
        assemble after body.code.length = .ok (moved, map) →
        ∃ e, body.relocate later map moved = .error e ∧ body.Refused later map e := by
  constructor
  · intro out lowered
    obtain ⟨stages, reached, rfl, -⟩ := stages_of_lower lowered
    obtain ⟨edited, follow⟩ := reached.bodiesFollow target
    exact ⟨stages.input, stages.output target, stages.table, stages.ended.pool, reached.parsed, rfl,
      fun short => reached.parse_output short target, reached.bootstrap, edited.grown,
      stages.blanked_output target, follow⟩
  · intro c table m info body code parsed bootstrap stays held names
    refine ⟨?_, fun later retains after moved map replaced assembled =>
      names.refused retains replaced assembled⟩
    cases lowered : (lower around target bytes numbering world).result with
    | error failure => exact ⟨failure, rfl⟩
    | ok out =>
        obtain ⟨stages, reached, -⟩ := stages_of_lower lowered
        obtain ⟨edited, follow⟩ := reached.bodiesFollow target
        cases parsed.symm.trans reached.parsed
        cases bootstrap.symm.trans reached.bootstrap
        obtain ⟨m', -, info', _, found, -, follows⟩ := round_from_mem follow stays
        cases (edited.retains.bodyInfo held).symm.trans found
        exact absurd follows (names.not_infoFollows edited.grown.extends
          (stages.blanked_output target).retains _)

/-! ## A class with tables

The loop again, with a handler for the call, two line numbers, and a variable that lives from
behind the call to the end. -/

namespace Guarded

def body : Body :=
  ⟨1, 0, [0xBA, 0, 15, 0, 0, 0x57, 0xA7, 0xFF, 0xFA], [⟨0, 5, 5, 0⟩],
    [⟨16, [0, 2, 0, 0, 0, 1, 0, 5, 0, 2]⟩, ⟨17, [0, 1, 0, 5, 0, 4, 0, 3, 0, 13, 0, 0]⟩]⟩

def moved : Body :=
  ⟨1, 0, [0xB8, 0, 22, 0x57, 0xA7, 0xFF, 0xFC], [⟨0, 3, 3, 0⟩],
    [⟨16, [0, 2, 0, 0, 0, 1, 0, 3, 0, 2]⟩, ⟨17, [0, 1, 0, 3, 0, 4, 0, 3, 0, 13, 0, 0]⟩]⟩

def input : ClassFile :=
  { Looping.input with
    pool := ⟨Looping.input.pool.slots ++
      #[Looping.text "LineNumberTable", Looping.text "LocalVariableTable"]⟩
    methods := [⟨8, 3, 4, [⟨5, body.write⟩]⟩] }

def stages : Stages Unit :=
  { input := input
    owner := "Loop"
    table := [⟨12, []⟩]
    methods := input.methods
    replaced := [⟨8, 3, 4, [⟨5, moved.write⟩]⟩]
    ended := ⟨⟨some ⟨"Loop", .file ⟨[]⟩, [], 0⟩, ⟨1⟩, ()⟩,
      ⟨input.pool.slots ++ #[Looping.text "Loop$$Lambda$1", some (.classRef 18),
        Looping.text factoryName, some (.nameAndType 20 13), some (.methodRef 19 21)]⟩⟩
    code := [⟨0, .call Opcode.invokeStatic 22⟩, ⟨3, .plain 0x57 []⟩, ⟨4, .branch 0xA7 0⟩] }

def begun : Standing Unit :=
  ⟨⟨none, .fresh, ()⟩, input.pool⟩

theorem replaces : Rounds (Scope.Replaces Looping.surroundings "Loop" [⟨12, []⟩]) begun
    Looping.code [some 22, none, none] stages.ended := by
  have judged : judge [⟨12, []⟩] 15 input.pool = .ok (.lambda (Looping.site "run")) := by
    decide +kernel
  have asks : begun.inquiry.Asks Looping.surroundings "Loop" (Looping.site "run")
      ⟨"Loop$$Lambda$1", factoryName, "()LTask;"⟩ stages.ended.inquiry :=
    ⟨_, (), .inr ⟨rfl, [], rfl⟩, rfl, by decide +kernel⟩
  have interned : (Pool.internMethodRef "Loop$$Lambda$1" factoryName "()LTask;" false).run
      begun.pool = (.ok 22, stages.ended.pool) :=
    Prod.ext (by decide +kernel) (by decide +kernel)
  exact .cons (.lambda rfl judged asks (Looping.standsFor _ _) interned)
    (.cons (.other rfl) (.cons (.other rfl) (.nil _)))

theorem substitutesInfo : Member.SubstitutesInfo Looping.surroundings "Loop" [⟨12, []⟩] begun
    body.write moved.write stages.ended := by
  let after : List Placed :=
    [⟨0, .call Opcode.invokeStatic 22⟩, ⟨5, .plain 0x57 []⟩, ⟨6, .branch 0xA7 0⟩]
  let map := layOut after body.code.length
  have parsed : Body.parse body.write = .ok body := by decide +kernel
  have decoded : decode body.code = .ok Looping.code := by decide +kernel
  have replaced : List.Forall₂ Placed.Replaced Looping.code after :=
    .cons (.call 0 15 22) (.cons (.kept _) (.cons (.kept _) .nil))
  obtain ⟨lands, shrinks⟩ := sends_layOut decoded replaced
  have start : map.find16 0 = .ok 0 := shrinks.find16_eq_ok.mpr ((lands 0 0).mpr (by decide))
  have behind : map.find16 5 = .ok 3 := shrinks.find16_eq_ok.mpr ((lands 5 3).mpr (by decide))
  have first : map.find 0 = .ok 0 := OffsetMap.find_eq_ok.mpr ((lands 0 0).mpr (by decide))
  have ending : map.find 9 = .ok 7 := OffsetMap.find_eq_ok.mpr ((lands 9 7).mpr (by decide))
  have call : Placed.encode map 0 ⟨0, .call Opcode.invokeStatic 22⟩ = .ok [0xB8, 0, 22] := rfl
  have drop : Placed.encode map 3 ⟨5, .plain 0x57 []⟩ = .ok [0x57] := rfl
  have back : Placed.encode map 4 ⟨6, .branch 0xA7 0⟩ = .ok [0xA7, 0xFF, 0xFC] := by
    simp only [Placed.encode, Placed.near, Placed.distance, first]
    rfl
  have assembled : assemble after body.code.length = .ok (moved.code, map) :=
    assemble_eq_ok.mpr ⟨rfl, .cons call (.cons drop (.cons back (.nil _)))⟩
  have handler : Handler.relocate map ⟨0, 5, 5, 0⟩ = .ok ⟨0, 3, 3, 0⟩ := by
    simp only [Handler.relocate, start, behind]
    rfl
  have lines : OffsetTable.relocate map [0, 2, 0, 0, 0, 1, 0, 5, 0, 2] .lineNumbers =
      .ok [0, 2, 0, 0, 0, 1, 0, 3, 0, 2] := by
    refine bind_eq_ok.mpr ⟨[⟨0, 1⟩, ⟨5, 2⟩], by decide +kernel, ?_⟩
    simp only [List.mapM_cons, List.mapM_nil, LineNumber.relocate, start, behind]
    rfl
  have ranges : OffsetTable.relocate map [0, 1, 0, 5, 0, 4, 0, 3, 0, 13, 0, 0] .localVariables =
      .ok [0, 1, 0, 3, 0, 4, 0, 3, 0, 13, 0, 0] := by
    refine bind_eq_ok.mpr ⟨[⟨5, 4, 3, 13, 0⟩], by decide +kernel, ?_⟩
    have stop : map.find ((5 : UInt16).toNat + (4 : UInt16).toNat) = .ok 7 := ending
    simp only [List.mapM_cons, List.mapM_nil, LocalVariable.relocate, behind, stop]
    rfl
  have relocated : body.relocate stages.ended.pool map moved.code = .ok moved := by
    refine Body.relocate_eq_ok.mpr ⟨_, _, .cons handler .nil, .cons ?_ (.cons ?_ .nil), rfl⟩
    · exact Attribute.relocate_eq_ok.mpr ⟨"LineNumberTable", by decide +kernel,
        .inr ⟨.lineNumbers, _, by decide +kernel, lines, rfl⟩⟩
    · exact Attribute.relocate_eq_ok.mpr ⟨"LocalVariableTable", by decide +kernel,
        .inr ⟨.localVariables, _, by decide +kernel, ranges, rfl⟩⟩
  exact .rebuilt parsed decoded replaces rfl assembled relocated

theorem reached : stages.Reached Looping.surroundings input.write .fresh () := by
  have single : stages.Single input.write ⟨8, 3, 4, [⟨5, body.write⟩]⟩ ⟨5, body.write⟩
      moved.write := by decide +kernel
  exact single.reached substitutesInfo

/-- The class with a handler that starts inside the call. -/
def strayed : ClassFile :=
  { input with methods := [⟨8, 3, 4, [⟨5, Body.write { body with handlers := [⟨0, 5, 1, 0⟩] }⟩]⟩] }

end Guarded

/-- The tables of the guarded loop follow the shorter call. The same class with a handler that
starts inside the call is refused. -/
theorem lower_keeps_coverage_guarded :
    (∃ out, (lower Looping.surroundings ⟨50, 0⟩ Guarded.input.write .fresh ()).result = .ok out ∧
      ∃ c c' table grown, ClassFile.parse Guarded.input.write = .ok c ∧ out = c'.write ∧
        (Guarded.input.write.length < 1073741824 → ClassFile.parse out = .ok c') ∧
        c.bootstrapMethods = .ok table ∧ Pool.Grown c.pool grown ∧ Pool.Blanked grown c'.pool ∧
        List.Forall₂ (Member.BodyFollows table grown c'.pool) c.staying c'.methods) ∧
    ∃ failure, (lower Looping.surroundings ⟨50, 0⟩ Guarded.strayed.write .fresh ()).result =
      .error failure := by
  have lowered := Guarded.reached.lowered ⟨50, 0⟩
  refine ⟨⟨_, lowered, (lower_keeps_coverage _ _ _ _ _).1 _ lowered⟩, ?_⟩
  have parsed : ClassFile.parse Guarded.strayed.write = .ok Guarded.strayed := by decide +kernel
  have bootstrap : Guarded.strayed.bootstrapMethods = .ok [⟨12, []⟩] := by decide +kernel
  have stray : Body.NamesStray [⟨12, []⟩] Guarded.strayed.pool
      (Body.write { Guarded.body with handlers := [⟨0, 5, 1, 0⟩] })
      { Guarded.body with handlers := [⟨0, 5, 1, 0⟩] } Looping.code :=
    { parsed := by decide +kernel
      decoded := by decide +kernel
      lambda := ⟨⟨0, .dynamicCall 15⟩, List.mem_cons_self, 15, ⟨"run", "()LTask;",
        ⟨.invokeStatic, ⟨metafactory, "metafactory", "()V", false⟩⟩, []⟩, rfl, by decide +kernel⟩
      stray := ⟨1, .handler List.mem_cons_self (by decide), by decide⟩ }
  exact ((lower_keeps_coverage Looping.surroundings ⟨50, 0⟩ Guarded.strayed.write .fresh ()).2 _ _
    ⟨8, 3, 4, [⟨5, Body.write { Guarded.body with handlers := [⟨0, 5, 1, 0⟩] }⟩]⟩ _ _ _ parsed
    bootstrap (by decide +kernel) (by decide +kernel) stray).1

end Downlevel
