/-
# Downlevel.Proofs.Pool.Intern — pools grow at the end

Adding a constant leaves every slot where it is; what is appended are constants of the
kinds that a method reference is made of (`Grown`), and so it is if the edit fails on the way
(`Grows`). A constant is found at the index that it was found by (`entry?_of_find?`).
-/
import Downlevel.Pool.Intern
import Downlevel.Proofs.ClassFile.RoundTrip
import Downlevel.Proofs.Pool.Lookup
import Downlevel.Proofs.Text.Modified

namespace Downlevel

set_option autoImplicit false

open Sequencing

/-- Whether the constant is of a kind that a method reference is made of. -/
def Constant.makesMethodRef : Constant → Bool
  | .utf8 _ => true
  | .classRef _ => true
  | .nameAndType _ _ => true
  | .methodRef _ _ => true
  | _ => false

namespace Pool

/-! ## Growth -/

theorem extends_of_kept {before after : Pool}
    (kept : before.slots.toList <+: after.slots.toList) : Extends before after := by
  intro index constant found
  obtain ⟨n, position, slot⟩ := entry?_eq_some.mp found
  refine entry?_eq_some.mpr ⟨n, position, ?_⟩
  rw [← Array.getElem?_toList] at slot ⊢
  obtain ⟨inside, same⟩ := List.getElem?_eq_some_iff.mp slot
  rw [← same]
  exact List.prefix_iff_getElem?.mp kept n inside

/-- The pool with parts of method references appended, each in a slot of its own. -/
def Grown (before after : Pool) : Prop :=
  ∃ added : List Constant, (∀ constant ∈ added, constant.makesMethodRef = true) ∧
    after.slots.toList = before.slots.toList ++ added.map some

theorem Grown.refl (pool : Pool) : Grown pool pool :=
  ⟨[], fun _ member => absurd member List.not_mem_nil, (List.append_nil _).symm⟩

theorem Grown.trans {before middle after : Pool} (first : Grown before middle)
    (second : Grown middle after) : Grown before after := by
  obtain ⟨added, parts, slots⟩ := first
  obtain ⟨added', parts', slots'⟩ := second
  refine ⟨added ++ added', fun constant member => ?_, ?_⟩
  · rcases List.mem_append.mp member with member | member
    · exact parts constant member
    · exact parts' constant member
  · rw [slots', slots, List.map_append, List.append_assoc]

theorem Grown.extends {before after : Pool} (grown : Grown before after) :
    Extends before after := by
  obtain ⟨added, -, slots⟩ := grown
  exact extends_of_kept ⟨added.map some, slots.symm⟩

/-! ## Single constants -/

theorem append_eq_ok {constant : Constant} {before after : Pool} {index : UInt16} :
    (append constant).run before = (.ok index, after) ↔
      before.slots.size < capacity ∧ index = UInt16.ofNat (before.slots.size + 1) ∧
        after = ⟨before.slots.push (some constant)⟩ := by
  by_cases full : capacity ≤ before.slots.size
  · constructor
    · intro ran
      have refused : (append constant).run before = (.error .full, before) := by
        show (if capacity ≤ before.slots.size then _ else _ : Edit UInt16).run before = _
        rw [if_pos full]
        rfl
      rw [refused] at ran
      cases ran
    · rintro ⟨room, -, -⟩
      omega
  · have appended : (append constant).run before =
        (.ok (UInt16.ofNat (before.slots.size + 1)), ⟨before.slots.push (some constant)⟩) := by
      show (if capacity ≤ before.slots.size then _ else _ : Edit UInt16).run before = _
      rw [if_neg full]
      rfl
    rw [appended]
    constructor
    · intro same
      cases same
      exact ⟨by omega, rfl, rfl⟩
    · rintro ⟨-, rfl, rfl⟩
      rfl

theorem entry?_of_find? {pool : Pool} {constant : Constant} {index : UInt16}
    (bounded : pool.slots.size ≤ capacity) (found : pool.find? constant = some index) :
    pool.entry? index = some constant := by
  obtain ⟨n, first, rfl⟩ := Option.map_eq_some_iff.mp found
  obtain ⟨inside, holds, -⟩ := Array.findIdx?_eq_some_iff_getElem.mp first
  rw [capacity] at bounded
  refine entry?_eq_some.mpr ⟨n, ?_, ?_⟩
  · rw [UInt16.toNat_ofNat']
    omega
  · rw [Array.getElem?_eq_getElem inside, eq_of_beq holds]

theorem intern_eq_ok {constant : Constant} {before after : Pool} {index : UInt16} :
    (intern constant).run before = (.ok index, after) ↔
      before.find? constant = some index ∧ before = after ∨
        before.find? constant = none ∧ (append constant).run before = (.ok index, after) := by
  unfold intern
  rw [run_bind_eq_ok]
  constructor
  · rintro ⟨pool, middle, got, next⟩
    cases got
    cases found : before.find? constant with
    | none =>
        simp only [found] at next
        exact .inr ⟨rfl, next⟩
    | some place =>
        simp only [found] at next
        obtain ⟨rfl, rfl⟩ := run_pure_eq_ok.mp next
        exact .inl ⟨rfl, rfl⟩
  · rintro (⟨found, rfl⟩ | ⟨absent, ran⟩)
    · refine ⟨before, before, rfl, ?_⟩
      simp only [found]
      rfl
    · refine ⟨before, before, rfl, ?_⟩
      simp only [absent]
      exact ran

/-! ## Whatever becomes of an edit -/

section Grows

variable {α β : Type}

/-- The edit lets the pool grow, also if it fails. -/
def Grows (e : Edit α) : Prop :=
  ∀ pool, Grown pool (e.run pool).2

theorem grows_throw (e : InternError) : Grows (throw e : Edit α) :=
  fun pool => .refl pool

theorem Grows.bind {e : Edit α} {next : α → Edit β} (first : Grows e)
    (others : ∀ a, Grows (next a)) : Grows (e >>= next) := by
  intro pool
  have grown := first pool
  rw [run_bind]
  generalize e.run pool = ran at grown
  obtain ⟨error | a, middle⟩ := ran
  · exact grown
  · exact grown.trans (others a middle)

theorem grows_append {constant : Constant} (part : constant.makesMethodRef = true) :
    Grows (append constant) := by
  intro pool
  by_cases full : capacity ≤ pool.slots.size
  · show Grown pool ((if capacity ≤ pool.slots.size then _ else _ : Edit UInt16).run pool).2
    rw [if_pos full]
    exact .refl pool
  · have room : pool.slots.size < capacity := by omega
    rw [append_eq_ok.mpr ⟨room, rfl, rfl⟩]
    refine ⟨[constant], fun other member => ?_, Array.toList_push⟩
    rw [List.mem_singleton.mp member]
    exact part

theorem grows_intern {constant : Constant} (part : constant.makesMethodRef = true) :
    Grows (intern constant) := by
  intro pool
  cases found : pool.find? constant with
  | none =>
      have ran : (intern constant).run pool = (append constant).run pool := by
        simp only [intern, run_bind, run_get, found]
      rw [ran]
      exact grows_append part pool
  | some index =>
      rw [intern_eq_ok.mpr (.inl ⟨found, rfl⟩)]
      exact .refl pool

theorem grows_internText (text : String) : Grows (internText text) := by
  unfold internText
  by_cases long : 65535 < (Modified.encode text).length
  · simp only [if_pos long]
    exact (grows_throw _).bind fun _ => grows_intern rfl
  · simp only [if_neg long]
    exact grows_intern rfl

/-- Adding a method reference lets any pool grow, whether it is within the limits or not. -/
theorem grows_internMethodRef (owner name descriptor : String) :
    Grows (internMethodRef owner name descriptor false) := by
  have owned : Grows (internClass owner) :=
    (grows_internText owner).bind fun _ => grows_intern rfl
  have signed : Grows (internNameAndType name descriptor) :=
    (grows_internText name).bind fun _ => (grows_internText descriptor).bind fun _ =>
      grows_intern rfl
  exact owned.bind fun ownerIndex => signed.bind fun signature =>
    show Grows (intern (.methodRef ownerIndex signature)) from grows_intern rfl

end Grows

/-- A pool that has grown and is within the limits of the format. -/
structure Edited (before after : Pool) : Prop where
  grown : Grown before after
  fits : after.Fits

theorem Edited.trans {before middle after : Pool} (first : Edited before middle)
    (second : Edited middle after) : Edited before after :=
  ⟨first.grown.trans second.grown, second.fits⟩

theorem Edited.retains {before after : Pool} (edited : Edited before after) :
    Retains before after :=
  edited.grown.extends.retains

theorem internText_eq_ok {text : String} {before after : Pool} {index : UInt16} :
    (internText text).run before = (.ok index, after) ↔
      (Modified.encode text).length ≤ 65535 ∧
        (intern (.utf8 (Modified.encode text))).run before = (.ok index, after) := by
  unfold internText
  by_cases long : 65535 < (Modified.encode text).length
  · simp only [if_pos long]
    constructor
    · intro ran
      cases ran
    · rintro ⟨short, -⟩
      omega
  · simp only [if_neg long]
    constructor
    · intro ran
      exact ⟨by omega, ran⟩
    · rintro ⟨-, ran⟩
      exact ran

theorem grown_of_internMethodRef {owner name descriptor : String} {before after : Pool}
    {index : UInt16}
    (ran : (internMethodRef owner name descriptor false).run before = (.ok index, after)) :
    Grown before after := by
  have grown := grows_internMethodRef owner name descriptor before
  rwa [ran] at grown

end Pool

end Downlevel
