/-
# Downlevel.Proofs.StackEffects — what a factory call leaves on the stack

A lambda call site becomes a static call of a factory. The call takes the arguments of the site
off the operand stack, since the parameters are the same, and puts a reference onto it, which
takes one slot (`Factory.StandsFor.exchanged`). The limits of the body stay as they were
(`lower_exchanges_calls`).

Nothing is asked of what the site itself returns. The two calls leave the stack at the same
height exactly if it returns a value of one slot. `Voiding` is a class with a call site that
returns nothing (`lower_grows_voiding`).
-/
import Downlevel.Proofs.Code.Tables
import Downlevel.Proofs.Reworking

namespace Downlevel

set_option autoImplicit false

open Sequencing

variable {ω : Type}

/-! ## Slots -/

/-- A reference takes one slot. -/
theorem FieldType.slots_of_isReference {type : FieldType} (reference : type.isReference = true) :
    type.slots = 1 := by
  obtain ⟨dims, element⟩ := type
  cases element with
  | object name => cases dims <;> rfl
  | primitive kind =>
      cases dims with
      | zero => cases reference
      | succ dims => rfl

/-- A value takes one slot, unless it is a long or a double. -/
theorem FieldType.slots_eq_one_iff {type : FieldType} :
    type.slots = 1 ↔ type ≠ ⟨0, .primitive .long⟩ ∧ type ≠ ⟨0, .primitive .double⟩ := by
  obtain ⟨dims, element⟩ := type
  cases element with
  | object name => cases dims <;> simp [FieldType.slots]
  | primitive kind =>
      cases dims with
      | zero => cases kind <;> decide
      | succ dims => simp [FieldType.slots]

namespace MethodDescriptor

/-- The number of operand-stack slots that a call puts back. -/
def resultSlots (d : MethodDescriptor) : Nat :=
  (d.result.map FieldType.slots).getD 0

theorem resultSlots_eq_one_iff {d : MethodDescriptor} :
    d.resultSlots = 1 ↔ d.result ≠ none ∧ d.result ≠ some ⟨0, .primitive .long⟩ ∧
      d.result ≠ some ⟨0, .primitive .double⟩ := by
  obtain ⟨parameters, result⟩ := d
  cases result with
  | none => simp [resultSlots]
  | some type => simp [resultSlots, FieldType.slots_eq_one_iff]

end MethodDescriptor

/-! ## Bodies -/

/-- A call of the member in the place of the call site. It takes the same arguments and puts one
slot onto the stack. The site puts as many, unless it returns nothing, a long or a double. -/
def CallSite.ExchangedFor (site : CallSite) (member : MemberRef) : Prop :=
  ∃ expected actual, MethodDescriptor.parse? site.descriptor = some expected ∧
    MethodDescriptor.parse? member.descriptor = some actual ∧
    actual.parameters = expected.parameters ∧ actual.resultSlots = 1 ∧
    (actual.resultSlots = expected.resultSlots ↔ expected.result ≠ none ∧
      expected.result ≠ some ⟨0, .primitive .long⟩ ∧
      expected.result ≠ some ⟨0, .primitive .double⟩)

theorem Factory.StandsFor.exchanged {factory : Factory} {site : CallSite}
    (stands : factory.StandsFor site) : site.ExchangedFor factory.reference := by
  obtain ⟨expected, parsed, fits⟩ := stands
  unfold Factory.fits at fits
  cases parsed' : MethodDescriptor.parse? factory.descriptor with
  | none =>
      rw [parsed'] at fits
      cases fits
  | some actual =>
      rw [parsed', Bool.and_eq_true] at fits
      obtain ⟨parameters, returns⟩ := fits
      have one : actual.resultSlots = 1 := by
        cases result : actual.result with
        | none =>
            rw [result] at returns
            cases returns
        | some type =>
            rw [result] at returns
            rw [MethodDescriptor.resultSlots, result]
            exact FieldType.slots_of_isReference returns
      refine ⟨expected, actual, parsed, parsed', beq_iff_eq.mp parameters, one, ?_⟩
      rw [one, ← MethodDescriptor.resultSlots_eq_one_iff]
      exact eq_comm

section Bodies

variable (table : List BootstrapMethod) (grown output : Pool)

/-- The contents of the attribute that holds a body, before and after, as to the lambda call
sites in it. Call sites are judged in `grown`, and references are followed in `output`. -/
inductive Body.InfoExchanged : Option Bytes → Option Bytes → Prop where
  /-- There is no body. -/
  | bare : InfoExchanged none none
  /-- There is no lambda call site, and the bytes stay. -/
  | untouched {info : Bytes} {body : Body} {code : List Placed}
      (parsed : Body.parse info = .ok body) (decoded : decode body.code = .ok code)
      (passes : ∀ p ∈ code, p.Passes table grown) : InfoExchanged (some info) (some info)
  /-- Every lambda call site is a static call now, and the limits of the body stay. -/
  | reworked {info : Bytes} {body body' : Body} {code code' : List Placed}
      (parsed : Body.parse info = .ok body) (decoded : decode body.code = .ok code)
      (lambda : HasLambda table grown code)
      (parsed' : Body.parse body'.write = .ok body') (decoded' : decode body'.code = .ok code')
      (numbered : code.length = code'.length)
      (maxStack : body'.maxStack = body.maxStack) (maxLocals : body'.maxLocals = body.maxLocals)
      (sites : ∀ (k : Nat) (p : Placed) (index : UInt16) (site : CallSite), code[k]? = some p →
        p.instruction = .dynamicCall index → judge table index grown = .ok (.lambda site) →
        ∃ (p' : Placed) (reference : UInt16) (member : MemberRef), code'[k]? = some p' ∧
          p'.instruction = .call Opcode.invokeStatic reference ∧
          output.memberRef reference = .ok member ∧ site.ExchangedFor member) :
      InfoExchanged (some info) (some body'.write)

/-- The bodies of a method before and after. -/
def Member.BodyExchanged (m m' : Member) : Prop :=
  ∃ info info', m.bodyInfo grown = .ok info ∧ m'.bodyInfo output = .ok info' ∧
    Body.InfoExchanged table grown output info info'

variable {table grown output}

/-- A lambda call site is exchanged for a call of a factory. -/
theorem Placed.Chosen.exchanged {p p' : Placed} {call : Option UInt16} {map : OffsetMap}
    {index : UInt16} {site : CallSite} (chosen : Placed.Chosen table grown p call)
    (moves : (p.replace call).Moves map p') (dynamic : p.instruction = .dynamicCall index)
    (judged : judge table index grown = .ok (.lambda site)) :
    ∃ reference member, p'.instruction = .call Opcode.invokeStatic reference ∧
      grown.memberRef reference = .ok member ∧ site.ExchangedFor member := by
  cases chosen with
  | passed passes =>
      obtain ⟨text, handle, foreign⟩ := passes index dynamic
      cases judged.symm.trans foreign
  | @lambda _ _ factory reference dynamic' judged' stands refers =>
      cases dynamic.symm.trans dynamic'
      cases judged.symm.trans judged'
      refine ⟨reference, factory.reference, ?_, refers, stands.exchanged⟩
      have relabels := moves.2
      rw [Placed.replace] at relabels
      generalize p'.instruction = instruction at relabels
      cases relabels
      rfl

theorem Body.InfoReworked.exchanged {info info' : Option Bytes}
    (reworked : Body.InfoReworked table grown info info') (retains : Pool.Retains grown output) :
    Body.InfoExchanged table grown output info info' := by
  cases reworked with
  | bare => exact .bare
  | untouched parsed decoded passes => exact .untouched parsed decoded passes
  | reworked stored parsed decoded lambda chosen assembled relocated =>
      have replaced := replaced_of_picked (picked_of_chosen chosen)
      obtain ⟨rfl, parsed'⟩ :=
        Body.parse_of_relocate stored parsed decoded replaced assembled relocated
      obtain ⟨code', decoded', moved⟩ := moved_of_chosen decoded chosen assembled
      obtain ⟨handlers, attributes, -, -, same⟩ := Body.relocate_eq_ok.mp relocated
      refine .reworked parsed decoded lambda parsed' decoded' moved.length_eq ?_ ?_ ?_
      · rw [same]
      · rw [same]
      · intro k p index site held dynamic judged
        obtain ⟨p', held', call, choice, moves, -⟩ := round_at moved held
        obtain ⟨reference, member, static, refers, exchanged⟩ :=
          choice.exchanged moves dynamic judged
        exact ⟨p', reference, member, held', static, retains.memberRef refers, exchanged⟩

end Bodies

/-! ## Classes -/

/-- Whatever factories the surroundings name: every lambda call site of a class that is lowered
has become a call that takes the same arguments and puts one slot onto the stack, in a body with
the same limits. It leaves the stack as the site did exactly if the site returns a value of one
slot. -/
theorem lower_exchanges_calls {around : Surroundings ω} {target : Version} {bytes out : Bytes}
    {numbering : Numbering} {world : ω}
    (lowered : (lower around target bytes numbering world).result = .ok out) :
    ∃ c c' table grown, ClassFile.parse bytes = .ok c ∧ out = c'.write ∧
      (bytes.length < 1073741824 → ClassFile.parse out = .ok c') ∧
      c.bootstrapMethods = .ok table ∧ Pool.Grown c.pool grown ∧ Pool.Blanked grown c'.pool ∧
      List.Forall₂ (Member.BodyExchanged table grown c'.pool) c.staying c'.methods :=
  lower_bodies Body.InfoReworked.exchanged lowered

/-! ## A class with a call site that returns nothing

A method makes a call that leaves nothing on the stack, and has no room for anything. The
factory that is named for it returns an object. -/

namespace Voiding

open Looping (text)

def body : Body :=
  ⟨0, 0, [0xBA, 0, 17, 0, 0, 0xB1], [], []⟩

def rebuilt : Body :=
  ⟨0, 0, [0xB8, 0, 23, 0xB1], [], []⟩

def input : ClassFile :=
  { Looping.input with
    pool := ⟨Looping.input.pool.slots ++ #[some (.nameAndType 3 4), some (.invokeDynamic 0 16)]⟩
    methods := [⟨8, 3, 4, [⟨5, body.write⟩]⟩] }

def code : List Placed :=
  [⟨0, .dynamicCall 17⟩, ⟨5, .plain 0xB1 []⟩]

def site : CallSite :=
  ⟨"run", "()V", ⟨.invokeStatic, ⟨metafactory, "metafactory", "()V", false⟩⟩, []⟩

def factory : Factory :=
  ⟨"F", factoryName, "()Ljava/lang/Object;"⟩

/-- Surroundings that find every class and know one factory. -/
def surroundings : Surroundings Unit where
  resolve name world := (.ok ⟨name, .file ⟨[]⟩, [], 0⟩, [], world)
  nameFactory _ numbering world := (.ok factory, numbering, world)

def begun : Standing Unit :=
  ⟨⟨none, .fresh, ()⟩, input.pool⟩

def stages : Stages Unit :=
  { input := input
    owner := "Loop"
    table := [⟨12, []⟩]
    methods := input.methods
    replaced := [⟨8, 3, 4, [⟨5, rebuilt.write⟩]⟩]
    ended := ⟨⟨some ⟨"Loop", .file ⟨[]⟩, [], 0⟩, .fresh, ()⟩,
      ⟨input.pool.slots ++ #[text "F", some (.classRef 18), text factoryName,
        text "()Ljava/lang/Object;", some (.nameAndType 20 21), some (.methodRef 19 22)]⟩⟩
    code := [⟨0, .call Opcode.invokeStatic 23⟩, ⟨3, .plain 0xB1 []⟩] }

theorem standsFor : factory.StandsFor site := by
  have returnsNothing : MethodDescriptor.parse? site.descriptor = some ⟨[], none⟩ := by
    decide +kernel
  exact ⟨_, returnsNothing, by decide +kernel⟩

theorem replaces : Rounds (Scope.Replaces surroundings "Loop" [⟨12, []⟩]) begun code
    [some 23, none] stages.ended := by
  have judged : judge [⟨12, []⟩] 17 begun.pool = .ok (.lambda site) := by decide +kernel
  have asks : begun.inquiry.Asks surroundings "Loop" site factory stages.ended.inquiry :=
    ⟨_, (), .inr ⟨rfl, [], rfl⟩, rfl, rfl⟩
  have interned : (Pool.internMethodRef factory.owner factory.name factory.descriptor false).run
      begun.pool = (.ok 23, stages.ended.pool) :=
    Prod.ext (by decide +kernel) (by decide +kernel)
  exact .cons (.lambda rfl judged asks standsFor interned) (.cons (.other rfl) (.nil _))

theorem substitutesInfo : Member.SubstitutesInfo surroundings "Loop" [⟨12, []⟩] begun
    body.write rebuilt.write stages.ended := by
  let after : List Placed := [⟨0, .call Opcode.invokeStatic 23⟩, ⟨5, .plain 0xB1 []⟩]
  let map := layOut after body.code.length
  have parsed : Body.parse body.write = .ok body := by decide +kernel
  have decoded : decode body.code = .ok code := by decide +kernel
  have call : Placed.encode map 0 ⟨0, .call Opcode.invokeStatic 23⟩ = .ok [0xB8, 0, 23] := rfl
  have last : Placed.encode map 3 ⟨5, .plain 0xB1 []⟩ = .ok [0xB1] := rfl
  have assembled : assemble after body.code.length = .ok (rebuilt.code, map) :=
    assemble_eq_ok.mpr ⟨rfl, .cons call (.cons last (.nil _))⟩
  exact .rebuilt parsed decoded replaces rfl assembled rfl

theorem reached : stages.Reached surroundings input.write .fresh () := by
  have single : stages.Single input.write ⟨8, 3, 4, [⟨5, body.write⟩]⟩ ⟨5, body.write⟩
      rebuilt.write := by decide +kernel
  exact single.reached substitutesInfo

end Voiding

/-- The call site that returns nothing is exchanged for a call of a factory. -/
theorem lower_exchanges_calls_voiding :
    ∃ out, (lower Voiding.surroundings ⟨51, 0⟩ Voiding.input.write .fresh ()).result = .ok out ∧
      ∃ c c' table grown, ClassFile.parse Voiding.input.write = .ok c ∧ out = c'.write ∧
        (Voiding.input.write.length < 1073741824 → ClassFile.parse out = .ok c') ∧
        c.bootstrapMethods = .ok table ∧ Pool.Grown c.pool grown ∧ Pool.Blanked grown c'.pool ∧
        List.Forall₂ (Member.BodyExchanged table grown c'.pool) c.staying c'.methods :=
  ⟨_, Voiding.reached.lowered ⟨51, 0⟩, lower_exchanges_calls (Voiding.reached.lowered ⟨51, 0⟩)⟩

/-- A call that leaves nothing on the stack becomes one that leaves an object there, in a body
that has no room for it. -/
theorem lower_grows_voiding :
    ClassFile.parse Voiding.input.write = .ok Voiding.input ∧
      Voiding.input.bootstrapMethods = .ok [⟨12, []⟩] ∧
      Voiding.input.staying = [⟨8, 3, 4, [⟨5, Voiding.body.write⟩]⟩] ∧
      decode Voiding.body.code = .ok [⟨0, .dynamicCall 17⟩, ⟨5, .plain 0xB1 []⟩] ∧
      judge [⟨12, []⟩] 17 Voiding.input.pool = .ok (.lambda Voiding.site) ∧
      (MethodDescriptor.parse? Voiding.site.descriptor).map MethodDescriptor.resultSlots =
        some 0 ∧
      ∃ out c', (lower Voiding.surroundings ⟨51, 0⟩ Voiding.input.write .fresh ()).result =
          .ok out ∧
        ClassFile.parse out = .ok c' ∧
        c'.methods = [⟨8, 3, 4, [⟨5, Voiding.rebuilt.write⟩]⟩] ∧
        decode Voiding.rebuilt.code =
          .ok [⟨0, .call Opcode.invokeStatic 23⟩, ⟨3, .plain 0xB1 []⟩] ∧
        c'.pool.memberRef 23 = .ok Voiding.factory.reference ∧
        (MethodDescriptor.parse? Voiding.factory.reference.descriptor).map
          MethodDescriptor.resultSlots = some 1 ∧
        Voiding.rebuilt.maxStack = 0 := by
  have pool : (Voiding.stages.output ⟨51, 0⟩).pool = Voiding.stages.ended.pool :=
    Stages.output_pool_of_linkage (by decide)
  refine ⟨by decide +kernel, by decide +kernel, by decide +kernel, by decide +kernel,
    by decide +kernel, by decide +kernel, _, _, Voiding.reached.lowered ⟨51, 0⟩,
    Voiding.reached.parse_output (by decide +kernel) ⟨51, 0⟩,
    Voiding.stages.output_methods ⟨51, 0⟩, by decide +kernel, ?_, by decide +kernel, rfl⟩
  rw [pool]
  decide +kernel

end Downlevel
