/-
# Downlevel.Proofs.ClassFile.Names — finding attributes by name

The position of an attribute is that of the first one whose name reads as wanted; every
name before it has been read, and reads otherwise (`position_eq_some`). Names that could be
read stay readable while the pool grows and when leftovers are blanked, so an attribute
that was found is found again at the same position (`Retains.position`). The body of a
method is what the first attribute of its name holds (`Member.bodyInfo_eq_some`).
-/
import Downlevel.ClassFile.Basic
import Downlevel.Code.Body
import Downlevel.Proofs.Pool.Lookup

namespace Downlevel

set_option autoImplicit false

open Sequencing

namespace Attribute

theorem isNamed_eq_ok {pool : Pool} {name : String} {a : Attribute} {answer : Bool} :
    a.isNamed pool name = .ok answer ↔
      ∃ text, pool.utf8 a.name = .ok text ∧ (text == name) = answer := by
  unfold isNamed
  rw [bind_eq_ok]
  constructor
  · rintro ⟨text, read, same⟩
    exact ⟨text, read, pure_eq_ok.mp same⟩
  · rintro ⟨text, read, same⟩
    exact ⟨text, read, pure_eq_ok.mpr same⟩

theorem isNamed_of_utf8 {pool : Pool} {a : Attribute} {text : String}
    (read : pool.utf8 a.name = .ok text) (name : String) :
    a.isNamed pool name = .ok (text == name) :=
  isNamed_eq_ok.mpr ⟨text, read, rfl⟩

theorem positionFrom_eq_some {pool : Pool} {name : String} {attributes : List Attribute}
    {start n : Nat} :
    positionFrom pool name start attributes = .ok (some n) ↔
      ∃ before a after, attributes = before ++ a :: after ∧ n = start + before.length ∧
        (∀ b ∈ before, b.isNamed pool name = .ok false) ∧ a.isNamed pool name = .ok true := by
  induction attributes generalizing start with
  | nil =>
      constructor
      · intro impossible
        cases impossible
      · rintro ⟨before, a, after, impossible, -⟩
        exact absurd impossible.symm (by simp)
  | cons b attributes ih =>
      rw [positionFrom]
      constructor
      · intro found
        cases named : b.isNamed pool name with
        | error e =>
            rw [named] at found
            cases found
        | ok answer =>
            rw [named] at found
            cases answer with
            | true =>
                cases found
                exact ⟨[], b, attributes, rfl, rfl, by simp, named⟩
            | false =>
                obtain ⟨before, a, after, rfl, rfl, others, found⟩ := ih.mp found
                refine ⟨b :: before, a, after, rfl, ?_, ?_, found⟩
                · rw [List.length_cons]
                  omega
                · intro c member
                  rcases List.mem_cons.mp member with rfl | member
                  · exact named
                  · exact others c member
      · rintro ⟨before, a, after, same, rfl, others, found⟩
        cases before with
        | nil =>
            obtain ⟨rfl, rfl⟩ := List.cons.inj same
            rw [found]
            rfl
        | cons c before =>
            obtain ⟨rfl, rfl⟩ := List.cons.inj same
            rw [others b List.mem_cons_self]
            refine ih.mpr ⟨before, a, after, rfl, ?_, ?_, found⟩
            · rw [List.length_cons]
              omega
            · exact fun c member => others c (List.mem_cons_of_mem _ member)

theorem position_eq_some {pool : Pool} {name : String} {attributes : List Attribute} {n : Nat} :
    position pool name attributes = .ok (some n) ↔
      ∃ before a after, attributes = before ++ a :: after ∧ n = before.length ∧
        (∀ b ∈ before, b.isNamed pool name = .ok false) ∧ a.isNamed pool name = .ok true := by
  unfold position
  simp only [positionFrom_eq_some, Nat.zero_add]

theorem position_eq_none {pool : Pool} {name : String} {attributes : List Attribute} :
    position pool name attributes = .ok none ↔
      ∀ a ∈ attributes, a.isNamed pool name = .ok false := by
  unfold position
  have from' (start : Nat) : positionFrom pool name start attributes = .ok none ↔
      ∀ a ∈ attributes, a.isNamed pool name = .ok false := by
    induction attributes generalizing start with
    | nil => simp [positionFrom]
    | cons b attributes ih =>
        rw [positionFrom]
        cases named : b.isNamed pool name with
        | error e => simp [named]
        | ok answer => cases answer <;> simp [named, ih]
  exact from' 0

/-- The position that is found is one of the list. -/
theorem getElem?_of_position {pool : Pool} {name : String} {attributes : List Attribute} {n : Nat}
    (found : position pool name attributes = .ok (some n)) :
    ∃ a, attributes[n]? = some a ∧ a ∈ attributes := by
  obtain ⟨before, a, after, rfl, rfl, -⟩ := position_eq_some.mp found
  refine ⟨a, ?_, List.mem_append_right _ List.mem_cons_self⟩
  rw [List.getElem?_append_right (Nat.le_refl _), Nat.sub_self]
  rfl

end Attribute

section Retains

variable {before after : Pool} (retains : Pool.Retains before after)
include retains

theorem Pool.Retains.isNamed {name : String} {a : Attribute} {answer : Bool}
    (found : a.isNamed before name = .ok answer) : a.isNamed after name = .ok answer := by
  obtain ⟨text, read, same⟩ := Attribute.isNamed_eq_ok.mp found
  exact Attribute.isNamed_eq_ok.mpr ⟨text, retains.utf8 read, same⟩

theorem Pool.Retains.position {name : String} {attributes : List Attribute} {place : Option Nat}
    (found : Attribute.position before name attributes = .ok place) :
    Attribute.position after name attributes = .ok place := by
  cases place with
  | none =>
      refine Attribute.position_eq_none.mpr fun a member => ?_
      exact retains.isNamed (Attribute.position_eq_none.mp found a member)
  | some n =>
      obtain ⟨front, a, back, split, length, others, named⟩ := Attribute.position_eq_some.mp found
      refine Attribute.position_eq_some.mpr ⟨front, a, back, split, length, ?_, ?_⟩
      · exact fun b member => retains.isNamed (others b member)
      · exact retains.isNamed named

theorem Pool.Retains.signature {m : Member} {text : String}
    (found : m.signature before = .ok text) : m.signature after = .ok text := by
  obtain ⟨name, named, next⟩ := bind_eq_ok.mp found
  obtain ⟨descriptor, described, same⟩ := bind_eq_ok.mp next
  exact bind_eq_ok.mpr
    ⟨name, retains.utf8 named, bind_eq_ok.mpr ⟨descriptor, retains.utf8 described, same⟩⟩

end Retains

/-- Positions depend on the names of the attributes only. -/
theorem Attribute.position_set_info {pool : Pool} {name : String} {attributes : List Attribute}
    {n : Nat} {a : Attribute} (held : attributes[n]? = some a) (info : Bytes) :
    position pool name (attributes.set n { a with info := info }) =
      position pool name attributes := by
  unfold position
  have from' (start : Nat) : positionFrom pool name start (attributes.set n { a with info := info })
      = positionFrom pool name start attributes := by
    induction attributes generalizing n start with
    | nil => rfl
    | cons b attributes ih =>
        cases n with
        | zero =>
            obtain rfl : b = a := Option.some.inj held
            rfl
        | succ n =>
            have tail := ih (n := n) held (start + 1)
            simp only [List.set_cons_succ, positionFrom, tail]
  exact from' 0

/-! ## The body of a method -/

namespace Member

theorem bodyInfo_eq_none {pool : Pool} {m : Member} :
    m.bodyInfo pool = .ok none ↔ m.bodyPosition pool = .ok none := by
  unfold bodyInfo
  rw [bind_eq_ok]
  constructor
  · rintro ⟨place, positioned, next⟩
    cases place with
    | none => exact positioned
    | some n =>
        obtain ⟨a, held, -⟩ := Attribute.getElem?_of_position positioned
        simp only [held] at next
        cases next
  · intro bodiless
    exact ⟨none, bodiless, rfl⟩

theorem bodyInfo_eq_some {pool : Pool} {m : Member} {info : Bytes} :
    m.bodyInfo pool = .ok (some info) ↔
      ∃ n a, m.bodyPosition pool = .ok (some n) ∧ m.attributes[n]? = some a ∧ a.info = info := by
  unfold bodyInfo
  rw [bind_eq_ok]
  constructor
  · rintro ⟨place, positioned, next⟩
    cases place with
    | none => cases next
    | some n =>
        obtain ⟨a, held, -⟩ := Attribute.getElem?_of_position positioned
        simp only [held] at next
        cases next
        exact ⟨n, a, positioned, held, rfl⟩
  · rintro ⟨n, a, positioned, held, rfl⟩
    refine ⟨some n, positioned, ?_⟩
    simp only [held]
    rfl

/-- Setting the contents of the attribute that holds the body sets the body. -/
theorem bodyInfo_set_info {pool : Pool} {m : Member} {n : Nat} {a : Attribute}
    (positioned : m.bodyPosition pool = .ok (some n)) (held : m.attributes[n]? = some a)
    (info : Bytes) :
    bodyInfo pool { m with attributes := m.attributes.set n { a with info := info } } =
      .ok (some info) := by
  have inside := (List.getElem?_eq_some_iff.mp held).1
  refine bodyInfo_eq_some.mpr ⟨n, { a with info := info }, ?_, List.getElem?_set_self inside, rfl⟩
  exact (Attribute.position_set_info held info).trans positioned

end Member

theorem Pool.Retains.bodyInfo {before after : Pool} (retains : Pool.Retains before after)
    {m : Member} {info : Option Bytes} (found : m.bodyInfo before = .ok info) :
    m.bodyInfo after = .ok info := by
  cases info with
  | none => exact Member.bodyInfo_eq_none.mpr (retains.position (Member.bodyInfo_eq_none.mp found))
  | some info =>
      obtain ⟨n, a, positioned, held, same⟩ := Member.bodyInfo_eq_some.mp found
      exact Member.bodyInfo_eq_some.mpr ⟨n, a, retains.position positioned, held, same⟩

end Downlevel
