/-
# Downlevel.Proofs.Foreign — the arguments of foreign bootstrap methods

A dynamic call of a foreign bootstrap method is passed over before anybody looks at the arguments
of that method. So two tables that differ in such arguments only cannot be told apart by the work
on the call sites (`substitute_ignores_foreign_arguments`). The arguments need not be constants of
the pool at all.

Which methods are foreign is read in the pool at the beginning. The pool grows along the way, but
what could be read in it goes on reading the same.
-/
import Downlevel.Proofs.Recording

namespace Downlevel

set_option autoImplicit false

open Sequencing

variable {ω : Type}

/-- Two entries of a table with the same bootstrap method. Their arguments are the same, too,
unless the method is foreign. -/
structure BootstrapMethod.Interchangeable (pool : Pool) (method method' : BootstrapMethod) :
    Prop where
  handle : method.handle = method'.handle
  arguments : method.arguments = method'.arguments ∨
    ∃ bootstrap, pool.methodHandle method.handle = .ok bootstrap ∧
      bootstrap.member.owner ≠ metafactory

section Judging

variable {pool : Pool} {table table' : List BootstrapMethod}
  (tables : List.Forall₂ (BootstrapMethod.Interchangeable pool) table table')
include tables

/-- Every call site is judged the same by both tables, in the pool and in any that extends it. -/
theorem judge_of_interchangeable {grown : Pool} (grows : Pool.Extends pool grown)
    (index : UInt16) : judge table index grown = judge table' index grown := by
  unfold judge
  refine bind_congr fun ⟨position, name, descriptor⟩ => ?_
  simp only
  cases entry : table[position.toNat]? with
  | none =>
      have missing : table'[position.toNat]? = none := by
        rw [List.getElem?_eq_none_iff] at entry ⊢
        rwa [← tables.length_eq]
      rw [missing]
  | some method =>
      obtain ⟨method', entry', handle, arguments⟩ := round_at tables entry
      rw [entry']
      simp only [← handle]
      rcases arguments with same | ⟨bootstrap, found, foreign⟩
      · rw [same]
      · rw [grows.methodHandle found]
        simp [bind, Except.bind, foreign]

/-- One run beside the other: they stand the same all along. -/
theorem alike_of_interchangeable (around : Surroundings ω) (owner : String)
    (methods : List Member) :
    Alike (Work.Both fun t t' => t = t' ∧ Pool.Grown pool t.pool)
      (methods.mapM (Member.substitute owner table around))
      (methods.mapM (Member.substitute owner table' around)) := by
  have coupled : Coupled around around owner fun t t' => t = t' ∧ Pool.Grown pool t.pool := by
    constructor
    case pool =>
      rintro t t' ⟨rfl, -⟩
      rfl
    case known =>
      rintro t t' ⟨rfl, -⟩
      rfl
    case resolve =>
      rintro t t' ⟨rfl, grown⟩ -
      exact ⟨rfl, fun handle => ⟨rfl, grown⟩⟩
    case name =>
      rintro t t' ⟨rfl, grown⟩ request
      exact ⟨rfl, rfl, grown⟩
    case grow =>
      rintro t t' ⟨rfl, grown⟩ later more
      exact ⟨rfl, grown.trans more⟩
  refine Alike.mapM fun m _ => Member.alike_substitute (fun t t' related => coupled.pool related)
    fun _ _ _ method code _ p _ => coupled.alike_replacement ?_
  rintro t t' ⟨rfl, grown⟩ index -
  exact judge_of_interchangeable tables grown.extends index

end Judging

/-- The arguments of foreign bootstrap methods have no influence on the work on the call sites,
whatever they are. It fails with the same failure or gives the same methods; the pool, the numbers
drawn and the world are the same; and the surroundings are asked the same, one query after the
other. -/
theorem substitute_ignores_foreign_arguments {around : Surroundings ω} {owner : String}
    {table table' : List BootstrapMethod} {methods : List Member} {work : Work ω}
    (tables : List.Forall₂ (BootstrapMethod.Interchangeable work.pool) table table') :
    let ran := (methods.mapM (Member.substitute owner table around)).run work
    let ran' := (methods.mapM (Member.substitute owner table' around)).run work
    let recorded :=
      (methods.mapM (Member.substitute owner table around.recorded)).run work.recorded
    let recorded' :=
      (methods.mapM (Member.substitute owner table' around.recorded)).run work.recorded
    ran.1 = ran'.1 ∧ ran.2.standing = ran'.2.standing ∧
      ran.1 = recorded.1 ∧ ran.2.standing = recorded.2.standing.unrecorded ∧
      recorded.2.standing = recorded'.2.standing := by
  intro ran ran' recorded recorded'
  obtain ⟨result, standing, -⟩ := alike_of_interchangeable tables around owner methods work work
    ⟨rfl, Pool.Grown.refl work.pool⟩
  obtain ⟨same, beside⟩ := substitute_recorded around owner table methods work work.recorded rfl
  obtain ⟨-, asked, -⟩ := alike_of_interchangeable tables around.recorded owner methods
    work.recorded work.recorded ⟨rfl, Pool.Grown.refl work.pool⟩
  exact ⟨result, standing, same, beside, asked⟩

/-! ## A class with both kinds of call sites

A method joins texts, makes a task and joins texts again. -/

namespace Joining

open Looping (text)

def body : Body :=
  ⟨1, 0, [0xBA, 0, 22, 0, 0, 0x57, 0xBA, 0, 15, 0, 0, 0x57, 0xBA, 0, 22, 0, 0, 0x57, 0xB1], [], []⟩

def pool : Pool :=
  ⟨Looping.input.pool.slots ++ #[text "java/lang/invoke/StringConcatFactory", some (.classRef 16),
    text "makeConcat", some (.nameAndType 18 4), some (.methodRef 17 19),
    some (.methodHandle 6 20), some (.invokeDynamic 1 14)]⟩

def methods : List Member :=
  [⟨8, 3, 4, [⟨5, body.write⟩]⟩]

def begun : Work Unit :=
  ⟨(), .fresh, #[], none, pool⟩

def table : List BootstrapMethod :=
  [⟨12, []⟩, ⟨21, []⟩]

/-- The same with arguments that no constant backs. -/
def table' : List BootstrapMethod :=
  [⟨12, []⟩, ⟨21, [0, 999]⟩]

theorem tables :
    List.Forall₂ (BootstrapMethod.Interchangeable begun.pool) table table' := by
  have foreign : begun.pool.methodHandle 21 = .ok ⟨.invokeStatic,
      ⟨"java/lang/invoke/StringConcatFactory", "makeConcat", "()V", false⟩⟩ := by
    decide +kernel
  exact .cons ⟨rfl, .inl rfl⟩ (.cons ⟨rfl, .inr ⟨_, foreign, by decide⟩⟩ .nil)

end Joining

/-- The texts may as well be joined with arguments that cannot be read. -/
theorem substitute_ignores_foreign_arguments_joining :
    List.Forall₂ (BootstrapMethod.Interchangeable Joining.begun.pool)
        Joining.table Joining.table' ∧
      (Joining.pool.loadable 0).isOk = false ∧ (Joining.pool.loadable 999).isOk = false ∧
      judge Joining.table' 15 Joining.pool = .ok (.lambda (Looping.site "run")) ∧
      let ran := (Joining.methods.mapM
        (Member.substitute "Loop" Joining.table Looping.surroundings)).run Joining.begun
      let ran' := (Joining.methods.mapM
        (Member.substitute "Loop" Joining.table' Looping.surroundings)).run Joining.begun
      let recorded := (Joining.methods.mapM (Member.substitute "Loop" Joining.table
        Looping.surroundings.recorded)).run Joining.begun.recorded
      let recorded' := (Joining.methods.mapM (Member.substitute "Loop" Joining.table'
        Looping.surroundings.recorded)).run Joining.begun.recorded
      ran.1 = ran'.1 ∧ ran.2.standing = ran'.2.standing ∧
        ran.1 = recorded.1 ∧ ran.2.standing = recorded.2.standing.unrecorded ∧
        recorded.2.standing = recorded'.2.standing :=
  ⟨Joining.tables, by decide +kernel, by decide +kernel, by decide +kernel,
    substitute_ignores_foreign_arguments Joining.tables⟩

end Downlevel
