/-
# Downlevel.Proofs.LambdaSites — lambda call sites by table and pool

Which instructions are lambda call sites, and what is read of them, depends on the bootstrap table
and on the pool. `Placed.Constructs` says it in terms of the constants, and `Placed.lambdaSite?`
computes it. Once an instruction is a lambda call site it stays one while the pool grows, and so
does one that is passed over (`Placed.Constructs.lambdaSite?`, `Placed.Passes.lambdaSite?`).

The pool grows by exchanges: `Placed.Turn` is the exchange on one call site.
-/
import Downlevel.Proofs.Composition
import Downlevel.Proofs.Recording

namespace Downlevel

set_option autoImplicit false

open Sequencing

def Instruction.dynamicIndex? : Instruction → Option UInt16
  | .dynamicCall index => some index
  | .plain _ _ | .load _ _ | .branch _ _ | .tableSwitch _ _ _ | .lookupSwitch _ _
  | .call _ _ => none

def Judged.lambda? : Judged → Option CallSite
  | .foreign _ _ => none
  | .lambda site => some site

/-- The lambda call site that an instruction stands for, by a table and a pool. -/
def Placed.lambdaSite? (table : List BootstrapMethod) (pool : Pool) (p : Placed) :
    Option CallSite :=
  p.instruction.dynamicIndex?.bind fun index =>
    (judge table index pool).toOption.bind Judged.lambda?

/-- The instructions of a method that are lambda call sites. -/
def Member.lambdaCalls (table : List BootstrapMethod) (pool : Pool) (m : Member) : List Placed :=
  ((m.instructions pool).toOption.getD []).filter fun p => (p.lambdaSite? table pool).isSome

/-- There is an item with `Q`, and all items in front of it have `P`. -/
def Reaches {α : Type} (P Q : α → Prop) (as : List α) : Prop :=
  ∃ before a after, as = before ++ a :: after ∧ (∀ b ∈ before, P b) ∧ Q a

/-- The work on a method comes to a lambda call site. -/
def Member.ComesToLambda (table : List BootstrapMethod) (pool : Pool) (m : Member) : Prop :=
  (∃ text, m.signature pool = .ok text) ∧ ∃ code, m.instructions pool = .ok code ∧
    Reaches (Placed.Passes table pool) (fun p => (p.lambdaSite? table pool).isSome = true) code

/-- The pool after an exchange. A reference to the factory is added if a call of it can stand for
the call site. -/
def Pool.after (pool : Pool) (exchange : Exchange) : Pool :=
  exchange.answer.toOption.elim pool fun factory =>
    if (MethodDescriptor.parse? exchange.request.site.descriptor).any factory.fits then
      ((internMethodRef factory.owner factory.name factory.descriptor false).run pool).2
    else pool

/-- The instruction is a dynamic call of a bootstrap method of the metafactory, and the call site
has the name and the descriptor that the constant gives, the handle of the bootstrap method, and
its arguments in the order of the table. -/
def Placed.Constructs (table : List BootstrapMethod) (pool : Pool) (p : Placed) (site : CallSite) :
    Prop :=
  ∃ index position method, p.instruction = .dynamicCall index ∧
    pool.invokeDynamic index = .ok (position, site.name, site.descriptor) ∧
    table[position.toNat]? = some method ∧ pool.methodHandle method.handle = .ok site.bootstrap ∧
    site.bootstrap.member.owner = metafactory ∧
    List.Forall₂ (fun index value => pool.loadable index = .ok value) method.arguments
      site.arguments

/-- The exchange on a lambda call site, which is read in the pool as it is when its turn comes. -/
def Placed.Turn (table : List BootstrapMethod) (pool : Pool) (p : Placed) (exchange : Exchange)
    (pool' : Pool) : Prop :=
  p.Constructs table pool exchange.request.site ∧ pool' = pool.after exchange

theorem Instruction.dynamicIndex?_eq_some {instruction : Instruction} {index : UInt16} :
    instruction.dynamicIndex? = some index ↔ instruction = .dynamicCall index := by
  cases instruction with
  | dynamicCall found => simp [Instruction.dynamicIndex?]
  | _ => simp [Instruction.dynamicIndex?]

theorem Judged.lambda?_eq_some {judged : Judged} {site : CallSite} :
    judged.lambda? = some site ↔ judged = .lambda site := by
  cases judged with
  | lambda found => simp [Judged.lambda?]
  | foreign text handle => simp [Judged.lambda?]

theorem Placed.lambdaSite?_eq_some {table : List BootstrapMethod} {pool : Pool} {p : Placed}
    {site : CallSite} :
    p.lambdaSite? table pool = some site ↔
      ∃ index, p.instruction = .dynamicCall index ∧
        judge table index pool = .ok (.lambda site) := by
  unfold Placed.lambdaSite?
  rw [Option.bind_eq_some_iff]
  refine exists_congr fun index => and_congr Instruction.dynamicIndex?_eq_some ?_
  cases judge table index pool with
  | error e => simp [Except.toOption]
  | ok judged => simp [Except.toOption, Judged.lambda?_eq_some]

theorem judge_eq_lambda {table : List BootstrapMethod} {index : UInt16} {pool : Pool}
    {site : CallSite} :
    judge table index pool = .ok (.lambda site) ↔ ∃ position method,
      pool.invokeDynamic index = .ok (position, site.name, site.descriptor) ∧
      table[position.toNat]? = some method ∧ pool.methodHandle method.handle = .ok site.bootstrap ∧
      site.bootstrap.member.owner = metafactory ∧
      List.Forall₂ (fun index value => pool.loadable index = .ok value) method.arguments
        site.arguments := by
  unfold judge
  rw [bind_eq_ok]
  constructor
  · rintro ⟨⟨position, name, descriptor⟩, found, next⟩
    cases entry : table[position.toNat]? with
    | none =>
        simp only [entry] at next
        cases next
    | some method =>
        simp only [entry] at next
        obtain ⟨bootstrap, followed, next⟩ := bind_eq_ok.mp next
        split at next
        · rename_i owned
          obtain ⟨arguments, looked, same⟩ := bind_eq_ok.mp next
          cases pure_eq_ok.mp same
          exact ⟨position, method, found, entry, followed, eq_of_beq owned, mapM_eq_ok.mp looked⟩
        · cases pure_eq_ok.mp next
  · rintro ⟨position, method, found, entry, followed, owned, looked⟩
    refine ⟨_, found, ?_⟩
    simp only [entry]
    refine bind_eq_ok.mpr ⟨_, followed, ?_⟩
    rw [if_pos (beq_iff_eq.mpr owned)]
    exact bind_eq_ok.mpr ⟨_, mapM_eq_ok.mpr looked, rfl⟩

theorem Placed.constructs_iff {table : List BootstrapMethod} {pool : Pool} {p : Placed}
    {site : CallSite} :
    p.Constructs table pool site ↔
      ∃ index, p.instruction = .dynamicCall index ∧
        judge table index pool = .ok (.lambda site) := by
  simp only [Placed.Constructs, judge_eq_lambda, exists_and_left]

/-- A lambda call site is one in every pool that comes later. -/
theorem Placed.Constructs.lambdaSite? {table : List BootstrapMethod} {pool later : Pool}
    {p : Placed} {site : CallSite} (constructs : p.Constructs table pool site)
    (grows : Pool.Extends pool later) : p.lambdaSite? table later = some site := by
  obtain ⟨index, dynamic, judged⟩ := Placed.constructs_iff.mp constructs
  exact Placed.lambdaSite?_eq_some.mpr ⟨index, dynamic, judge_of_extends grows judged⟩

/-- What is passed over is no lambda call site, also later. -/
theorem Placed.Passes.lambdaSite? {table : List BootstrapMethod} {pool later : Pool} {p : Placed}
    (passes : p.Passes table pool) (grows : Pool.Extends pool later) :
    p.lambdaSite? table later = none := by
  refine Option.eq_none_iff_forall_ne_some.mpr fun site found => ?_
  obtain ⟨index, dynamic, judged⟩ := Placed.lambdaSite?_eq_some.mp found
  obtain ⟨text, handle, foreign⟩ := passes index dynamic
  cases (judge_of_extends grows foreign).symm.trans judged

theorem Member.lambdaCalls_of_instructions {table : List BootstrapMethod} {pool : Pool} {m : Member}
    {code : List Placed} (found : m.instructions pool = .ok code) :
    m.lambdaCalls table pool = code.filter fun p => (p.lambdaSite? table pool).isSome := by
  unfold Member.lambdaCalls
  rw [found]
  rfl

theorem reaches_cons {α : Type} {P Q : α → Prop} {a : α} {as : List α} :
    Reaches P Q (a :: as) ↔ Q a ∨ P a ∧ Reaches P Q as := by
  constructor
  · rintro ⟨before, found, after, same, passed, holds⟩
    cases before with
    | nil =>
        obtain ⟨rfl, -⟩ := List.cons.inj same
        exact .inl holds
    | cons b before =>
        obtain ⟨rfl, rfl⟩ := List.cons.inj same
        rw [List.forall_mem_cons] at passed
        exact .inr ⟨passed.1, before, found, after, rfl, passed.2, holds⟩
  · rintro (holds | ⟨passed, before, found, after, rfl, others, holds⟩)
    · exact ⟨[], a, as, rfl, fun b member => absurd member List.not_mem_nil, holds⟩
    · exact ⟨a :: before, found, after, rfl, List.forall_mem_cons.mpr ⟨passed, others⟩, holds⟩

theorem not_reaches_nil {α : Type} {P Q : α → Prop} : ¬ Reaches P Q ([] : List α) := by
  rintro ⟨before, a, after, same, -⟩
  simp at same

theorem Pool.grown_after (pool : Pool) (exchange : Exchange) :
    Pool.Grown pool (pool.after exchange) := by
  obtain ⟨request, refusal | factory⟩ := exchange
  · exact .refl pool
  · show Pool.Grown pool (if _ then _ else _)
    split
    · exact Pool.grows_internMethodRef _ _ _ pool
    · exact .refl pool

theorem grown_of_turns {table : List BootstrapMethod} {pool pool' : Pool} {reached : List Placed}
    {asked : List Exchange} (turns : Rounds (Placed.Turn table) pool reached asked pool') :
    Pool.Grown pool pool' := by
  induction turns with
  | nil pool => exact .refl pool
  | cons first _ ih =>
      obtain ⟨-, rfl⟩ := first
      exact (Pool.grown_after _ _).trans ih

end Downlevel
