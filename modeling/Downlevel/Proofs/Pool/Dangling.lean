/-
# Downlevel.Proofs.Pool.Dangling — what a smaller pool says

A lookup that succeeds goes on succeeding while the pool grows (`Proofs.Pool.Lookup`). This
module goes the other way. If a lookup succeeds in a grown pool then in the smaller one it
finds the same, unless on its way it comes to an index behind the end of the smaller pool; that
index is then what it refuses (`Foretells`). So a dangling index is the only thing that a pool
can be made to answer by letting it grow.

Lookups are put together by `bind` and `mapM`, and so is this property.
-/
import Downlevel.Proofs.Pool.Intern
import Downlevel.Substitution

namespace Downlevel

set_option autoImplicit false

open Sequencing

namespace Pool

variable {α β γ : Type}

/-- The lookup finds `a`, or refuses an index behind the end of the pool. -/
def Concedes (pool : Pool) (look : Pool → Except Malformed α) (a : α) : Prop :=
  look pool = .ok a ∨
    ∃ index, look pool = .error (.badIndex index) ∧ pool.slots.size < index.toNat

/-- Whatever the lookup finds in the pool `after`, the pool `before` concedes. -/
def Foretells (before after : Pool) (look : Pool → Except Malformed α) : Prop :=
  ∀ a, look after = .ok a → before.Concedes look a

section Rules

variable {before after : Pool}

/-- What does not depend on the pool is foretold. -/
theorem foretells_const (x : Except Malformed α) : Foretells before after fun _ => x :=
  fun _ found => .inl found

theorem Foretells.bind {look : Pool → Except Malformed α} {next : α → Pool → Except Malformed β}
    (first : Foretells before after look) (others : ∀ a, Foretells before after (next a)) :
    Foretells before after fun pool => look pool >>= fun a => next a pool := by
  intro b found
  obtain ⟨a, here, there⟩ := bind_eq_ok.mp found
  rcases first a here with same | ⟨index, refused, behind⟩
  · rcases others a b there with same' | ⟨index, refused, behind⟩
    · exact .inl (bind_eq_ok.mpr ⟨a, same, same'⟩)
    · refine .inr ⟨index, ?_, behind⟩
      simp only [same]
      exact refused
  · refine .inr ⟨index, ?_, behind⟩
    simp only [refused]
    rfl

theorem Foretells.mapM {look : γ → Pool → Except Malformed α}
    (each : ∀ c, Foretells before after (look c)) (cs : List γ) :
    Foretells before after fun pool => cs.mapM fun c => look c pool := by
  induction cs with
  | nil => exact foretells_const (pure [])
  | cons c cs ih =>
      simp only [List.mapM_cons]
      exact (each c).bind fun a => ih.bind fun others => foretells_const (pure (a :: others))

end Rules

/-! ## Lookups -/

section Lookups

variable {before after : Pool} (grown : Grown before after)
include grown

theorem Grown.foretells_entry (index : UInt16) :
    Foretells before after fun pool => pool.entry index := by
  obtain ⟨added, -, slots⟩ := grown
  intro constant found
  obtain ⟨n, position, held⟩ := entry?_eq_some.mp (entry_eq_ok.mp found)
  rw [← Array.getElem?_toList, slots] at held
  by_cases inside : n < before.slots.toList.length
  · rw [List.getElem?_append_left inside, Array.getElem?_toList] at held
    exact .inl (entry_eq_ok.mpr (entry?_eq_some.mpr ⟨n, position, held⟩))
  · have missing : before.entry? index = none := by
      refine Option.eq_none_iff_forall_not_mem.mpr fun other found => ?_
      obtain ⟨n', position', held'⟩ := entry?_eq_some.mp found
      obtain rfl : n' = n := by omega
      rw [← Array.getElem?_toList] at held'
      exact inside (List.getElem?_eq_some_iff.mp held').1
    refine .inr ⟨index, ?_, ?_⟩
    · simp only [entry, missing]
    · rw [Array.length_toList] at inside
      omega

theorem Grown.foretells_utf8 (index : UInt16) :
    Foretells before after fun pool => pool.utf8 index :=
  (grown.foretells_entry index).bind fun _ => foretells_const _

theorem Grown.foretells_className (index : UInt16) :
    Foretells before after fun pool => pool.className index := by
  refine (grown.foretells_entry index).bind fun constant => ?_
  cases constant with
  | classRef name => exact grown.foretells_utf8 name
  | _ => exact foretells_const _

theorem Grown.foretells_nameAndType (index : UInt16) :
    Foretells before after fun pool => pool.nameAndType index := by
  refine (grown.foretells_entry index).bind fun constant => ?_
  cases constant with
  | nameAndType name descriptor =>
      exact (grown.foretells_utf8 name).bind fun _ => (grown.foretells_utf8 descriptor).bind
        fun _ => foretells_const _
  | _ => exact foretells_const _

theorem Grown.foretells_member (owner signature : UInt16) (ofInterface : Bool) :
    Foretells before after fun pool => pool.member owner signature ofInterface :=
  (grown.foretells_nameAndType signature).bind fun _ => (grown.foretells_className owner).bind
    fun _ => foretells_const _

theorem Grown.foretells_memberRef (index : UInt16) :
    Foretells before after fun pool => pool.memberRef index := by
  refine (grown.foretells_entry index).bind fun constant => ?_
  cases constant with
  | fieldRef owner signature => exact grown.foretells_member owner signature false
  | methodRef owner signature => exact grown.foretells_member owner signature false
  | interfaceMethodRef owner signature => exact grown.foretells_member owner signature true
  | _ => exact foretells_const _

theorem Grown.foretells_methodHandle (index : UInt16) :
    Foretells before after fun pool => pool.methodHandle index := by
  refine (grown.foretells_entry index).bind fun constant => ?_
  cases constant with
  | methodHandle kind reference =>
      exact (grown.foretells_memberRef reference).bind fun _ => foretells_const _
  | _ => exact foretells_const _

theorem Grown.foretells_invokeDynamic (index : UInt16) :
    Foretells before after fun pool => pool.invokeDynamic index := by
  refine (grown.foretells_entry index).bind fun constant => ?_
  cases constant with
  | invokeDynamic position signature =>
      exact (grown.foretells_nameAndType signature).bind fun _ => foretells_const _
  | _ => exact foretells_const _

theorem Grown.foretells_loadable (index : UInt16) :
    Foretells before after fun pool => pool.loadable index := by
  refine (grown.foretells_entry index).bind fun constant => ?_
  cases constant with
  | string text => exact (grown.foretells_utf8 text).bind fun _ => foretells_const _
  | classRef text => exact (grown.foretells_utf8 text).bind fun _ => foretells_const _
  | methodType text => exact (grown.foretells_utf8 text).bind fun _ => foretells_const _
  | methodHandle _ _ => exact (grown.foretells_methodHandle index).bind fun _ => foretells_const _
  | dynamic _ signature =>
      exact (grown.foretells_nameAndType signature).bind fun _ => foretells_const _
  | _ => exact foretells_const _

/-- A judgement of a dynamic call is foretold. -/
theorem Grown.foretells_judge (table : List BootstrapMethod) (index : UInt16) :
    Foretells before after (judge table index) := by
  refine (grown.foretells_invokeDynamic index).bind fun site => ?_
  obtain ⟨position, name, descriptor⟩ := site
  simp only
  cases table[position.toNat]? with
  | none => exact foretells_const _
  | some method =>
      refine (grown.foretells_methodHandle method.handle).bind fun bootstrap => ?_
      by_cases owned : (bootstrap.member.owner == metafactory) = true
      · simp only [owned]
        exact (Foretells.mapM grown.foretells_loadable method.arguments).bind fun _ =>
          foretells_const _
      · simp only [owned]
        exact foretells_const _

end Lookups

end Pool

end Downlevel
