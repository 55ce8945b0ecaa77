/-
# Downlevel.Proofs.PassingThrough — dynamic calls of foreign bootstrap methods

A dynamic call of a foreign bootstrap method is passed over. In a body without lambda call sites
its bytes stay with all others. A body with one is assembled anew, and the call is encoded again
at its new place: the opcode and the index stay, but the two bytes behind them, which decoding
ignores, become zeros. So the call keeps its five bytes exactly if these two were zeros
(`lower_passes_foreign`).

`Marked` is a class in which they are not (`lower_clears_marked`).
-/
import Downlevel.Proofs.Foreign
import Downlevel.Proofs.Reworking

namespace Downlevel

set_option autoImplicit false

open Sequencing

variable {ω : Type}

/-! ## Bodies -/

/-- The five bytes of a dynamic call. The last two are no part of the instruction. -/
def dynamicCallBytes (index ignored : UInt16) : Bytes :=
  Opcode.invokeDynamic :: (be16 index ++ be16 ignored)

theorem dynamicCallBytes_eq_iff {index ignored ignored' : UInt16} :
    dynamicCallBytes index ignored = dynamicCallBytes index ignored' ↔ ignored = ignored' := by
  constructor
  · intro same
    have words : be16 ignored = be16 ignored' :=
      List.append_cancel_left (List.tail_eq_of_cons_eq same)
    obtain ⟨high, rest⟩ := List.cons_eq_cons.mp words
    obtain ⟨low, -⟩ := List.cons_eq_cons.mp rest
    rw [← word16_be16 ignored, ← word16_be16 ignored', high, low]
  · rintro rfl
    rfl

/-- The instruction of number `k` is a dynamic call before and after, with the same index and
with zeros behind it. -/
def PassedOn (code : Bytes) (row : List Placed) (code' : Bytes) (row' : List Placed) (k : Nat)
    (index : UInt16) : Prop :=
  ∃ p p' ignored, row[k]? = some p ∧ row'[k]? = some p' ∧
    p.bytes code = dynamicCallBytes index ignored ∧ p'.bytes code' = dynamicCallBytes index 0 ∧
    (p'.bytes code' = p.bytes code ↔ ignored = 0)

section Bodies

variable (table : List BootstrapMethod) (grown : Pool)

/-- The contents of the attribute that holds a body, before and after, as to the foreign call
sites in it. Call sites are judged in `grown`. -/
inductive Body.InfoPasses : Option Bytes → Option Bytes → Prop where
  /-- There is no body. -/
  | bare : InfoPasses none none
  /-- Every call site is foreign, and all bytes stay. -/
  | untouched {info : Bytes} {body : Body} {code : List Placed}
      (parsed : Body.parse info = .ok body) (decoded : decode body.code = .ok code)
      (passes : ∀ p ∈ code, p.Passes table grown) : InfoPasses (some info) (some info)
  /-- There is a lambda call site, and the foreign ones are encoded again. -/
  | reworked {info : Bytes} {body body' : Body} {code code' : List Placed}
      (parsed : Body.parse info = .ok body) (decoded : decode body.code = .ok code)
      (lambda : HasLambda table grown code)
      (parsed' : Body.parse body'.write = .ok body') (decoded' : decode body'.code = .ok code')
      (numbered : code.length = code'.length)
      (sites : ∀ k p index text handle, code[k]? = some p → p.instruction = .dynamicCall index →
        judge table index grown = .ok (.foreign text handle) →
        PassedOn body.code code body'.code code' k index) :
      InfoPasses (some info) (some body'.write)

/-- The bodies of a method before and after. -/
def Member.BodyPasses (output : Pool) (m m' : Member) : Prop :=
  ∃ info info', m.bodyInfo grown = .ok info ∧ m'.bodyInfo output = .ok info' ∧
    Body.InfoPasses table grown info info'

variable {table grown}

/-- A dynamic call in decoded code takes five bytes. -/
theorem Placed.bytes_of_dynamicCall {code : Bytes} {row : List Placed}
    (decoded : decode code = .ok row) {p : Placed} (member : p ∈ row) {index : UInt16}
    (dynamic : p.instruction = .dynamicCall index) :
    ∃ ignored, p.bytes code = dynamicCallBytes index ignored := by
  have encoded := (decode_eq_ok.mp decoded).encoded_bytes member
  rw [dynamic] at encoded
  generalize p.bytes code = bytes at encoded
  cases encoded with
  | @dynamicCall index ignored => exact ⟨ignored, rfl⟩

/-- A foreign call site is encoded again. -/
theorem passedOn_of_chosen {code bytes : Bytes} {row row' : List Placed}
    {map : OffsetMap} (decoded : decode code = .ok row)
    (moved : List.Forall₂ (fun p p' => ∃ call, Placed.Chosen table grown p call ∧
      (p.replace call).Moves map p' ∧
        (p.replace call).encode map p'.offset = .ok (p'.bytes bytes)) row row')
    {k : Nat} {p : Placed} {index : UInt16} {text : String} {handle : MethodHandle}
    (held : row[k]? = some p) (dynamic : p.instruction = .dynamicCall index)
    (foreign : judge table index grown = .ok (.foreign text handle)) :
    PassedOn code row bytes row' k index := by
  obtain ⟨ignored, before⟩ :=
    Placed.bytes_of_dynamicCall decoded (List.mem_of_getElem? held) dynamic
  obtain ⟨p', held', call, chosen, -, encoded⟩ := round_at moved held
  have after : p'.bytes bytes = dynamicCallBytes index 0 := by
    cases chosen with
    | passed =>
        rw [Placed.replace, Placed.encode, dynamic] at encoded
        exact (pure_eq_ok.mp encoded).symm
    | lambda dynamic' judged =>
        -- The site cannot be judged both foreign and a lambda.
        cases dynamic.symm.trans dynamic'
        cases foreign.symm.trans judged
  refine ⟨p, p', ignored, held, held', before, after, ?_⟩
  rw [before, after, dynamicCallBytes_eq_iff]
  exact eq_comm

theorem Body.InfoReworked.passes {info info' : Option Bytes}
    (reworked : Body.InfoReworked table grown info info') :
    Body.InfoPasses table grown info info' := by
  cases reworked with
  | bare => exact .bare
  | untouched parsed decoded passes => exact .untouched parsed decoded passes
  | reworked stored parsed decoded lambda chosen assembled relocated =>
      have replaced := replaced_of_picked (picked_of_chosen chosen)
      obtain ⟨rfl, parsed'⟩ :=
        Body.parse_of_relocate stored parsed decoded replaced assembled relocated
      obtain ⟨code', decoded', moved⟩ := moved_of_chosen decoded chosen assembled
      exact .reworked parsed decoded lambda parsed' decoded' moved.length_eq
        fun k p index text handle => passedOn_of_chosen decoded moved

end Bodies

/-! ## Classes -/

/-- Dynamic calls of foreign bootstrap methods stay where they are among the instructions of their
method. They keep all of their bytes if there is no lambda call site beside them, and otherwise
all but the last two, which are zeros then. -/
theorem lower_passes_foreign {around : Surroundings ω} {target : Version} {bytes out : Bytes}
    {numbering : Numbering} {world : ω}
    (lowered : (lower around target bytes numbering world).result = .ok out) :
    ∃ c c' table grown, ClassFile.parse bytes = .ok c ∧ out = c'.write ∧
      (bytes.length < 1073741824 → ClassFile.parse out = .ok c') ∧
      c.bootstrapMethods = .ok table ∧ Pool.Grown c.pool grown ∧ Pool.Blanked grown c'.pool ∧
      List.Forall₂ (Member.BodyPasses table grown c'.pool) c.staying c'.methods :=
  lower_bodies (P := fun table grown _ info info' => Body.InfoPasses table grown info info')
    (fun reworked _ => reworked.passes) lowered

/-! ## A class with a mark behind a call

A method makes a task and joins texts. The last of the bytes of the second call is not zero. -/

namespace Marked

open Looping (text site standsFor)

def body : Body :=
  ⟨1, 0, [0xBA, 0, 15, 0, 0, 0x57, 0xBA, 0, 22, 0, 7, 0x57, 0xB1], [], []⟩

def rebuilt : Body :=
  ⟨1, 0, [0xB8, 0, 27, 0x57, 0xBA, 0, 22, 0, 0, 0x57, 0xB1], [], []⟩

def input : ClassFile :=
  { Looping.input with
    pool := Joining.pool
    methods := [⟨8, 3, 4, [⟨5, body.write⟩]⟩]
    attributes := [⟨6, [0, 2, 0, 12, 0, 0, 0, 21, 0, 0]⟩] }

def code : List Placed :=
  [⟨0, .dynamicCall 15⟩, ⟨5, .plain 0x57 []⟩, ⟨6, .dynamicCall 22⟩, ⟨11, .plain 0x57 []⟩,
    ⟨12, .plain 0xB1 []⟩]

def begun : Standing Unit :=
  ⟨⟨none, .fresh, ()⟩, input.pool⟩

def stages : Stages Unit :=
  { input := input
    owner := "Loop"
    table := Joining.table
    methods := input.methods
    replaced := [⟨8, 3, 4, [⟨5, rebuilt.write⟩]⟩]
    ended := ⟨⟨some ⟨"Loop", .file ⟨[]⟩, [], 0⟩, ⟨1⟩, ()⟩,
      ⟨input.pool.slots ++ #[text "Loop$$Lambda$1", some (.classRef 23), text factoryName,
        some (.nameAndType 25 13), some (.methodRef 24 26)]⟩⟩
    code := [⟨0, .call Opcode.invokeStatic 27⟩, ⟨3, .plain 0x57 []⟩, ⟨4, .dynamicCall 22⟩,
      ⟨9, .plain 0x57 []⟩, ⟨10, .plain 0xB1 []⟩] }

/-- How the second call is judged. -/
def foreign : Judged :=
  .foreign "run()LTask;"
    ⟨.invokeStatic, ⟨"java/lang/invoke/StringConcatFactory", "makeConcat", "()V", false⟩⟩

theorem replaces : Rounds (Scope.Replaces Looping.surroundings "Loop" Joining.table) begun code
    [some 27, none, none, none, none] stages.ended := by
  have judged : judge Joining.table 15 begun.pool = .ok (.lambda (site "run")) := by decide +kernel
  have asks : begun.inquiry.Asks Looping.surroundings "Loop" (site "run")
      ⟨"Loop$$Lambda$1", factoryName, "()LTask;"⟩ stages.ended.inquiry :=
    ⟨_, (), .inr ⟨rfl, [], rfl⟩, rfl, by decide +kernel⟩
  have interned : (Pool.internMethodRef "Loop$$Lambda$1" factoryName "()LTask;" false).run
      begun.pool = (.ok 27, stages.ended.pool) :=
    Prod.ext (by decide +kernel) (by decide +kernel)
  have passed : judge Joining.table 22 stages.ended.pool = .ok foreign := by decide +kernel
  exact .cons (.lambda rfl judged asks (standsFor _ _) interned) (.cons (.other rfl)
    (.cons (.foreign rfl passed) (.cons (.other rfl) (.cons (.other rfl) (.nil _)))))

theorem substitutesInfo : Member.SubstitutesInfo Looping.surroundings "Loop" Joining.table begun
    body.write rebuilt.write stages.ended := by
  let after : List Placed := [⟨0, .call Opcode.invokeStatic 27⟩, ⟨5, .plain 0x57 []⟩,
    ⟨6, .dynamicCall 22⟩, ⟨11, .plain 0x57 []⟩, ⟨12, .plain 0xB1 []⟩]
  let map := layOut after body.code.length
  have parsed : Body.parse body.write = .ok body := by decide +kernel
  have decoded : decode body.code = .ok code := by decide +kernel
  have call : Placed.encode map 0 ⟨0, .call Opcode.invokeStatic 27⟩ = .ok [0xB8, 0, 27] := rfl
  have drop : Placed.encode map 3 ⟨5, .plain 0x57 []⟩ = .ok [0x57] := rfl
  have join : Placed.encode map 4 ⟨6, .dynamicCall 22⟩ = .ok [0xBA, 0, 22, 0, 0] := rfl
  have drop' : Placed.encode map 9 ⟨11, .plain 0x57 []⟩ = .ok [0x57] := rfl
  have last : Placed.encode map 10 ⟨12, .plain 0xB1 []⟩ = .ok [0xB1] := rfl
  have assembled : assemble after body.code.length = .ok (rebuilt.code, map) :=
    assemble_eq_ok.mpr
      ⟨rfl, .cons call (.cons drop (.cons join (.cons drop' (.cons last (.nil _)))))⟩
  exact .rebuilt parsed decoded replaces rfl assembled rfl

theorem reached : stages.Reached Looping.surroundings input.write .fresh () := by
  have single : stages.Single input.write ⟨8, 3, 4, [⟨5, body.write⟩]⟩ ⟨5, body.write⟩
      rebuilt.write := by decide +kernel
  exact single.reached substitutesInfo

end Marked

/-- The class with a mark is lowered, and its second call is passed on. -/
theorem lower_passes_foreign_marked :
    ∃ out, (lower Looping.surroundings ⟨51, 0⟩ Marked.input.write .fresh ()).result = .ok out ∧
      ∃ c c' table grown, ClassFile.parse Marked.input.write = .ok c ∧ out = c'.write ∧
        (Marked.input.write.length < 1073741824 → ClassFile.parse out = .ok c') ∧
        c.bootstrapMethods = .ok table ∧ Pool.Grown c.pool grown ∧ Pool.Blanked grown c'.pool ∧
        List.Forall₂ (Member.BodyPasses table grown c'.pool) c.staying c'.methods :=
  ⟨_, Marked.reached.lowered ⟨51, 0⟩, lower_passes_foreign (Marked.reached.lowered ⟨51, 0⟩)⟩

/-- The mark behind the call of a foreign bootstrap method is gone in the class that is written:
the third instruction of the method took the bytes `BA 00 16 00 07` and takes `BA 00 16 00 00`. -/
theorem lower_clears_marked :
    ClassFile.parse Marked.input.write = .ok Marked.input ∧
      Marked.input.bootstrapMethods = .ok Joining.table ∧
      Marked.input.staying = [⟨8, 3, 4, [⟨5, Marked.body.write⟩]⟩] ∧
      decode Marked.body.code = .ok Marked.code ∧
      Marked.code[2]? = some ⟨6, .dynamicCall 22⟩ ∧
      judge Joining.table 22 Marked.input.pool = .ok Marked.foreign ∧
      Placed.bytes Marked.body.code ⟨6, .dynamicCall 22⟩ = [0xBA, 0, 22, 0, 7] ∧
      ∃ out c', (lower Looping.surroundings ⟨51, 0⟩ Marked.input.write .fresh ()).result = .ok out ∧
        ClassFile.parse out = .ok c' ∧
        c'.methods = [⟨8, 3, 4, [⟨5, Marked.rebuilt.write⟩]⟩] ∧
        decode Marked.rebuilt.code = .ok Marked.stages.code ∧
        Marked.stages.code[2]? = some ⟨4, .dynamicCall 22⟩ ∧
        Placed.bytes Marked.rebuilt.code ⟨4, .dynamicCall 22⟩ = [0xBA, 0, 22, 0, 0] :=
  ⟨by decide +kernel, by decide +kernel, by decide +kernel, by decide +kernel, rfl,
    by decide +kernel, by decide, _, _, Marked.reached.lowered ⟨51, 0⟩,
    Marked.reached.parse_output (by decide +kernel) ⟨51, 0⟩,
    Marked.stages.output_methods ⟨51, 0⟩, by decide +kernel, rfl, by decide⟩

end Downlevel
