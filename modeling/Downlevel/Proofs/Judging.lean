/-
# Downlevel.Proofs.Judging — by which pool a call site is judged

Call sites are judged one after the other, each in the pool as it is when its turn comes. By
then the pool holds the references to the factories of the sites before it. `Scope.Foretold`
sets each judgement beside what the pool said before the first of them: the same, or that an
index lies behind its end. By induction over the code and over the methods this holds of a
whole class (`substitute_foretold`).

The exception cannot be left out. `Dangling` is a class whose second call site takes its name
from an index behind the end of the pool. The reference to the factory of the first site fills
that place, and the class is lowered (`lower_fills_dangling`).
-/
import Downlevel.Proofs.Outcome
import Downlevel.Proofs.Pool.Dangling

namespace Downlevel

set_option autoImplicit false

open Sequencing

variable {ω : Type}

section Foretold

variable (around : Surroundings ω) (owner : String) (table : List BootstrapMethod) (pool : Pool)

/-- What becomes of an instruction, beside what `pool` says of it. The call site that `pool`
concedes is the one that the surroundings are asked about. -/
inductive Scope.Foretold : Inquiry ω → Placed → Option UInt16 → Inquiry ω → Prop where
  | other {q : Inquiry ω} {p : Placed} (plain : p.isDynamicCall = false) : Foretold q p none q
  | foreign {q : Inquiry ω} {p : Placed} {index : UInt16} {text : String} {handle : MethodHandle}
      (dynamic : p.instruction = .dynamicCall index)
      (judged : pool.Concedes (judge table index) (.foreign text handle)) : Foretold q p none q
  | lambda {q q' : Inquiry ω} {p : Placed} {index : UInt16} {site : CallSite} {factory : Factory}
      {reference : UInt16} (dynamic : p.instruction = .dynamicCall index)
      (judged : pool.Concedes (judge table index) (.lambda site))
      (asks : q.Asks around owner site factory q') : Foretold q p (some reference) q'

/-- What becomes of a method, beside what `pool` says of the dynamic calls in its body. -/
inductive Member.Foretold : Inquiry ω → Member → Member → Inquiry ω → Prop where
  | bare {q : Inquiry ω} {m : Member} {now : Pool} (grown : Pool.Grown pool now)
      (bodiless : m.bodyInfo now = .ok none) : Foretold q m m q
  | body {q q' : Inquiry ω} {m m' : Member} {now : Pool} {info : Bytes} {body : Body}
      {code : List Placed} {calls : List (Option UInt16)} (grown : Pool.Grown pool now)
      (held : m.bodyInfo now = .ok (some info)) (parsed : Body.parse info = .ok body)
      (decoded : decode body.code = .ok code)
      (rounds : Rounds (Scope.Foretold around owner table pool) q code calls q') :
      Foretold q m m' q'

variable {around owner table pool}

/-- What single steps from a grown pool let grow and tell, a run of them does. -/
theorem grow_rounds {α β : Type} {R : Standing ω → α → β → Standing ω → Prop}
    {T : Inquiry ω → α → β → Inquiry ω → Prop} {t t' : Standing ω} {as : List α} {bs : List β}
    (rounds : Rounds R t as bs t') (grown : Pool.Grown pool t.pool)
    (step : ∀ t a b t', Pool.Grown pool t.pool → R t a b t' →
      Pool.Grown pool t'.pool ∧ T t.inquiry a b t'.inquiry) :
    Pool.Grown pool t'.pool ∧ Rounds T t.inquiry as bs t'.inquiry := by
  induction rounds with
  | nil t => exact ⟨grown, .nil _⟩
  | cons first _ ih =>
      obtain ⟨later, told⟩ := step _ _ _ _ grown first
      obtain ⟨last, others⟩ := ih later
      exact ⟨last, .cons told others⟩

theorem Scope.Replaces.foretold {t t' : Standing ω} {p : Placed} {call : Option UInt16}
    (replaces : Scope.Replaces around owner table t p call t') (grown : Pool.Grown pool t.pool) :
    Pool.Grown pool t'.pool ∧
      Scope.Foretold around owner table pool t.inquiry p call t'.inquiry := by
  cases replaces with
  | other plain => exact ⟨grown, .other plain⟩
  | foreign dynamic judged =>
      exact ⟨grown, .foreign dynamic (grown.foretells_judge table _ _ judged)⟩
  | lambda dynamic judged asks stands interned =>
      exact ⟨grown.trans (Pool.grown_of_internMethodRef interned),
        .lambda dynamic (grown.foretells_judge table _ _ judged) asks⟩

theorem Member.Substitutes.foretold {t t' : Standing ω} {m m' : Member}
    (substitutes : Member.Substitutes around owner table t m m' t')
    (grown : Pool.Grown pool t.pool) :
    Pool.Grown pool t'.pool ∧
      Member.Foretold around owner table pool t.inquiry m m' t'.inquiry := by
  cases substitutes with
  | bare _ bodiless => exact ⟨grown, .bare grown (bodyInfo_eq_none.mpr bodiless)⟩
  | body _ positioned held changes =>
      have body := bodyInfo_eq_some.mpr ⟨_, _, positioned, held, rfl⟩
      cases changes with
      | untouched parsed decoded rounds _ =>
          obtain ⟨last, told⟩ := grow_rounds rounds grown fun _ _ _ _ grown replaces =>
            replaces.foretold grown
          exact ⟨last, .body grown body parsed decoded told⟩
      | rebuilt parsed decoded rounds _ _ _ =>
          obtain ⟨last, told⟩ := grow_rounds rounds grown fun _ _ _ _ grown replaces =>
            replaces.foretold grown
          exact ⟨last, .body grown body parsed decoded told⟩

/-- Replacing the call sites of methods, whatever the pool and the table: every dynamic call is
judged as the pool at the beginning judges it, unless that pool refuses an index behind its
end. -/
theorem substitute_foretold {methods replaced : List Member} {work work' : Work ω}
    (ran : (methods.mapM (Member.substitute owner table around)).run work = (.ok replaced, work')) :
    Pool.Grown work.pool work'.pool ∧
      Rounds (Member.Foretold around owner table work.pool) work.standing.inquiry methods replaced
        work'.standing.inquiry := by
  have rounds := (Does.mapM (Member.does_substitute around owner table) methods).of_run ran
  exact grow_rounds rounds (Pool.Grown.refl work.pool) fun _ _ _ _ grown substitutes =>
    substitutes.foretold grown

end Foretold

/-! ## A class with a dangling name

A method makes two tasks. The name of the second call site is said to be at index 18, where the
pool ends at 17. -/

namespace Dangling

def body : Body :=
  ⟨1, 0, [0xBA, 0, 15, 0, 0, 0x57, 0xBA, 0, 17, 0, 0, 0x57, 0xB1], [], []⟩

def rebuilt : Body :=
  ⟨1, 0, [0xB8, 0, 22, 0x57, 0xB8, 0, 25, 0x57, 0xB1], [], []⟩

def input : ClassFile :=
  { Looping.input with
    pool := ⟨Looping.input.pool.slots ++
      #[some (.nameAndType 18 13), some (.invokeDynamic 0 16)]⟩
    methods := [⟨8, 3, 4, [⟨5, body.write⟩]⟩] }

def code : List Placed :=
  [⟨0, .dynamicCall 15⟩, ⟨5, .plain 0x57 []⟩, ⟨6, .dynamicCall 17⟩, ⟨11, .plain 0x57 []⟩,
    ⟨12, .plain 0xB1 []⟩]

def begun : Standing Unit :=
  ⟨⟨none, .fresh, ()⟩, input.pool⟩

/-- After the first call site. -/
def between : Standing Unit :=
  ⟨⟨some ⟨"Loop", .file ⟨[]⟩, [], 0⟩, ⟨1⟩, ()⟩,
    ⟨input.pool.slots ++ #[Looping.text "Loop$$Lambda$1", some (.classRef 18),
      Looping.text factoryName, some (.nameAndType 20 13), some (.methodRef 19 21)]⟩⟩

def stages : Stages Unit :=
  { input := input
    owner := "Loop"
    table := [⟨12, []⟩]
    methods := input.methods
    replaced := [⟨8, 3, 4, [⟨5, rebuilt.write⟩]⟩]
    ended := ⟨⟨some ⟨"Loop", .file ⟨[]⟩, [], 0⟩, ⟨2⟩, ()⟩,
      ⟨between.pool.slots ++ #[Looping.text "Loop$$Lambda$2", some (.classRef 23),
        some (.methodRef 24 21)]⟩⟩
    code := [⟨0, .call Opcode.invokeStatic 22⟩, ⟨3, .plain 0x57 []⟩,
      ⟨4, .call Opcode.invokeStatic 25⟩, ⟨7, .plain 0x57 []⟩, ⟨8, .plain 0xB1 []⟩] }

open Looping (site standsFor)

theorem replaces : Rounds (Scope.Replaces Looping.surroundings "Loop" [⟨12, []⟩]) begun code
    [some 22, none, some 25, none, none] stages.ended := by
  have judged : judge [⟨12, []⟩] 15 begun.pool = .ok (.lambda (site "run")) := by decide +kernel
  have asks : begun.inquiry.Asks Looping.surroundings "Loop" (site "run")
      ⟨"Loop$$Lambda$1", factoryName, "()LTask;"⟩ between.inquiry :=
    ⟨_, (), .inr ⟨rfl, [], rfl⟩, rfl, by decide +kernel⟩
  have interned : (Pool.internMethodRef "Loop$$Lambda$1" factoryName "()LTask;" false).run
      begun.pool = (.ok 22, between.pool) :=
    Prod.ext (by decide +kernel) (by decide +kernel)
  -- Now index 18 names the class of the first factory.
  have judged' : judge [⟨12, []⟩] 17 between.pool = .ok (.lambda (site "Loop$$Lambda$1")) := by
    decide +kernel
  have asks' : between.inquiry.Asks Looping.surroundings "Loop" (site "Loop$$Lambda$1")
      ⟨"Loop$$Lambda$2", factoryName, "()LTask;"⟩ stages.ended.inquiry :=
    ⟨_, (), .inl ⟨rfl, rfl⟩, rfl, by decide +kernel⟩
  have interned' : (Pool.internMethodRef "Loop$$Lambda$2" factoryName "()LTask;" false).run
      between.pool = (.ok 25, stages.ended.pool) :=
    Prod.ext (by decide +kernel) (by decide +kernel)
  exact .cons (.lambda rfl judged asks (standsFor _ _) interned) (.cons (.other rfl)
    (.cons (.lambda rfl judged' asks' (standsFor _ _) interned') (.cons (.other rfl)
      (.cons (.other rfl) (.nil _)))))

theorem substitutesInfo : Member.SubstitutesInfo Looping.surroundings "Loop" [⟨12, []⟩] begun
    body.write rebuilt.write stages.ended := by
  let after : List Placed := [⟨0, .call Opcode.invokeStatic 22⟩, ⟨5, .plain 0x57 []⟩,
    ⟨6, .call Opcode.invokeStatic 25⟩, ⟨11, .plain 0x57 []⟩, ⟨12, .plain 0xB1 []⟩]
  let map := layOut after body.code.length
  have parsed : Body.parse body.write = .ok body := by decide +kernel
  have decoded : decode body.code = .ok code := by decide +kernel
  have first : Placed.encode map 0 ⟨0, .call Opcode.invokeStatic 22⟩ = .ok [0xB8, 0, 22] := rfl
  have drop : Placed.encode map 3 ⟨5, .plain 0x57 []⟩ = .ok [0x57] := rfl
  have second : Placed.encode map 4 ⟨6, .call Opcode.invokeStatic 25⟩ = .ok [0xB8, 0, 25] := rfl
  have drop' : Placed.encode map 7 ⟨11, .plain 0x57 []⟩ = .ok [0x57] := rfl
  have last : Placed.encode map 8 ⟨12, .plain 0xB1 []⟩ = .ok [0xB1] := rfl
  have assembled : assemble after body.code.length = .ok (rebuilt.code, map) :=
    assemble_eq_ok.mpr
      ⟨rfl, .cons first (.cons drop (.cons second (.cons drop' (.cons last (.nil _)))))⟩
  exact .rebuilt parsed decoded replaces rfl assembled rfl

theorem reached : stages.Reached Looping.surroundings input.write .fresh () := by
  have single : stages.Single input.write ⟨8, 3, 4, [⟨5, body.write⟩]⟩ ⟨5, body.write⟩
      rebuilt.write := by decide +kernel
  exact single.reached substitutesInfo

end Dangling

/-- The class with a dangling name gets through, and its pool concedes both judgements. -/
theorem substitute_foretold_dangling :
    ∃ work' : Work Unit,
      (Dangling.input.methods.mapM
          (Member.substitute "Loop" [⟨12, []⟩] Looping.surroundings)).run
        ⟨(), .fresh, #[], none, Dangling.input.pool⟩ = (.ok Dangling.stages.replaced, work') ∧
      Pool.Grown Dangling.input.pool work'.pool ∧
      Rounds (Member.Foretold Looping.surroundings "Loop" [⟨12, []⟩] Dangling.input.pool)
        ⟨none, .fresh, ()⟩ Dangling.input.methods Dangling.stages.replaced
        work'.standing.inquiry := by
  obtain ⟨work', ran, -⟩ := (Does.mapM (Member.does_substitute Looping.surroundings "Loop"
    [⟨12, []⟩]) Dangling.input.methods ⟨(), .fresh, #[], none, Dangling.input.pool⟩
    Dangling.stages.replaced Dangling.stages.ended).mpr Dangling.reached.rounds
  exact ⟨work', ran, substitute_foretold ran⟩

/-- The class is lowered, although its pool ends before the index from which one of its call
sites takes its name. -/
theorem lower_fills_dangling :
    ClassFile.parse Dangling.input.write = .ok Dangling.input ∧
      Dangling.input.bootstrapMethods = .ok [⟨12, []⟩] ∧
      Dangling.input.instructions = .ok Dangling.code ∧
      ⟨6, .dynamicCall 17⟩ ∈ Dangling.code ∧
      Dangling.input.pool.count = 18 ∧
      judge [⟨12, []⟩] 17 Dangling.input.pool = .error (.badIndex 18) ∧
      ∃ out, (lower Looping.surroundings ⟨51, 0⟩ Dangling.input.write .fresh ()).result =
        .ok out :=
  ⟨by decide +kernel, by decide +kernel, by decide +kernel, by decide, by decide +kernel,
    by decide +kernel, _, Dangling.reached.lowered ⟨51, 0⟩⟩

end Downlevel
