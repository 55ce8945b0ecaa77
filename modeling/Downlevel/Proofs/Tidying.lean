/-
# Downlevel.Proofs.Tidying — tidying up is safe, complete and done once

What may go is decided by what stands in the code. `ClassFile.Holds` says that an instruction
stands in the body of some method, `ClassFile.Loads` that one of them loads the constant at an
index, and `ClassFile.NeedsTable` that something still refers to the bootstrap table: a dynamic
call, or a constant that is computed dynamically.

`ClassFile.TidiedInto` collects what tidying up makes of a class. While the table is needed the
class stays as it is. Otherwise the table goes, and a version without dynamic linkage keeps no
constant of it but the method handles and method types that some instruction loads. No constant
moves, no lookup that the rest of the class relies on changes its answer, and doing it again
changes nothing (`tidyBootstrap_tidies`).
-/
import Downlevel.Proofs.Outcome

namespace Downlevel

set_option autoImplicit false

open Sequencing Noted

/-! ## What stands in the code -/

theorem Placed.isDynamicCall_iff {p : Placed} :
    p.isDynamicCall = true ↔ ∃ index, p.instruction = .dynamicCall index := by
  unfold Placed.isDynamicCall
  cases p.instruction <;> simp

theorem Placed.loaded?_eq_some {p : Placed} {index : UInt16} :
    p.loaded? = some index ↔ ∃ opcode, p.instruction = .load opcode index := by
  unfold Placed.loaded?
  cases p.instruction <;> simp

theorem Pool.hasDynamic_iff {pool : Pool} :
    pool.hasDynamic = true ↔
      ∃ bootstrap signature, some (.dynamic bootstrap signature) ∈ pool.slots := by
  unfold Pool.hasDynamic
  rw [Array.any_eq_true']
  constructor
  · rintro ⟨slot, member, dynamic⟩
    cases slot with
    | none => cases dynamic
    | some constant =>
        cases constant with
        | dynamic bootstrap signature => exact ⟨bootstrap, signature, member⟩
        | _ => cases dynamic
  · rintro ⟨bootstrap, signature, member⟩
    exact ⟨_, member, rfl⟩

theorem contains_loadedIndices {code : List Placed} {index : UInt16} :
    (loadedIndices code).contains index = true ↔
      ∃ p ∈ code, ∃ opcode, p.instruction = .load opcode index := by
  have inserted (indices : List UInt16) (set : Std.HashSet UInt16) :
      (indices.foldl (·.insert ·) set).contains index = true ↔
        set.contains index = true ∨ index ∈ indices := by
    induction indices generalizing set with
    | nil => simp
    | cons first others ih =>
        rw [List.foldl_cons, ih, Std.HashSet.contains_insert, Bool.or_eq_true, beq_iff_eq,
          List.mem_cons, eq_comm, or_assoc, or_left_comm]
  unfold loadedIndices
  rw [inserted, List.mem_filterMap]
  simp [Placed.loaded?_eq_some]

namespace ClassFile

/-- The instruction stands in the body of a method. -/
def Holds (c : ClassFile) (p : Placed) : Prop :=
  ∃ m ∈ c.methods, ∃ code, m.instructions c.pool = .ok code ∧ p ∈ code

/-- An instruction loads the constant at the index. -/
def Loads (c : ClassFile) (index : UInt16) : Prop :=
  ∃ p opcode, c.Holds p ∧ p.instruction = .load opcode index

/-- Something refers to the bootstrap table: a dynamic call, or a constant that is computed
dynamically. -/
def NeedsTable (c : ClassFile) : Prop :=
  (∃ p index, c.Holds p ∧ p.instruction = .dynamicCall index) ∨
    ∃ bootstrap signature, some (.dynamic bootstrap signature) ∈ c.pool.slots

section Code

variable {c : ClassFile} {code : List Placed} (found : c.instructions = .ok code)
include found

theorem mem_instructions_iff {p : Placed} : p ∈ code ↔ c.Holds p := by
  constructor
  · intro held
    obtain ⟨pieces, each, joined⟩ := bind_eq_ok.mp found
    obtain rfl := pure_eq_ok.mp joined
    obtain ⟨piece, member, held⟩ := List.mem_flatten.mp held
    obtain ⟨m, stands, read⟩ := round_of_mem (mapM_eq_ok.mp each) member
    exact ⟨m, stands, piece, read, held⟩
  · rintro ⟨m, stands, piece, read, held⟩
    exact mem_instructions found stands read held

theorem contains_loadedIndices_iff {index : UInt16} :
    (loadedIndices code).contains index = true ↔ c.Loads index := by
  rw [contains_loadedIndices]
  simp only [mem_instructions_iff found]
  exact ⟨fun ⟨p, held, opcode, loads⟩ => ⟨p, opcode, held, loads⟩,
    fun ⟨p, opcode, held, loads⟩ => ⟨p, held, opcode, loads⟩⟩

theorem needsBootstrap_iff : c.needsBootstrap code = true ↔ c.NeedsTable := by
  unfold needsBootstrap NeedsTable
  rw [Bool.or_eq_true]
  refine or_congr ?_ ?_
  · rw [List.any_eq_true]
    simp only [mem_instructions_iff found, Placed.isDynamicCall_iff]
    exact ⟨fun ⟨p, held, index, calls⟩ => ⟨p, index, held, calls⟩,
      fun ⟨p, index, held, calls⟩ => ⟨p, held, index, calls⟩⟩
  · exact Pool.hasDynamic_iff

end Code

end ClassFile

/-! ## Leftovers -/

namespace Pool

theorem getElem?_blankLeftovers (loaded : Std.HashSet UInt16) (pool : Pool) (n : Nat) :
    (pool.blankLeftovers loaded).slots[n]? =
      (pool.slots[n]?).map fun slot => if isLeftover loaded n slot then some blank else slot := by
  unfold blankLeftovers
  rw [Array.getElem?_mapIdx]

/-- Of the constants that serve dynamic linkage, blanking leaves no call sites, and of the
others those that are loaded. -/
theorem loaded_of_blankLeftovers {loaded : Std.HashSet UInt16} {pool : Pool} {n : Nat}
    {constant : Constant}
    (held : (pool.blankLeftovers loaded).slots[n]? = some (some constant))
    (linkage : constant.servesLinkage = true) :
    (∀ bootstrap signature, constant ≠ .invokeDynamic bootstrap signature) ∧
      loaded.contains (UInt16.ofNat (n + 1)) = true := by
  rw [getElem?_blankLeftovers] at held
  obtain ⟨slot, -, became⟩ := Option.map_eq_some_iff.mp held
  by_cases leftover : isLeftover loaded n slot = true
  · rw [if_pos leftover] at became
    obtain rfl := Option.some.inj became
    cases linkage
  · rw [if_neg leftover] at became
    subst became
    simp only [isLeftover] at leftover
    cases constant with
    | invokeDynamic => exact absurd rfl leftover
    | methodHandle =>
        exact ⟨fun _ _ => Constant.noConfusion, by simpa [Constant.isLeftover] using leftover⟩
    | methodType =>
        exact ⟨fun _ _ => Constant.noConfusion, by simpa [Constant.isLeftover] using leftover⟩
    | _ => cases linkage

/-- A constant that is loaded stays, if it can be loaded at all. -/
theorem entry?_blankLeftovers_of_loaded {loaded : Std.HashSet UInt16} {pool : Pool}
    {index : UInt16} {constant : Constant} (held : pool.entry? index = some constant)
    (isLoaded : loaded.contains index = true)
    (other : ∀ bootstrap signature, constant ≠ .invokeDynamic bootstrap signature) :
    Pool.entry? (pool.blankLeftovers loaded) index = some constant := by
  obtain ⟨n, position, slot⟩ := entry?_eq_some.mp held
  refine entry?_eq_some.mpr ⟨n, position, ?_⟩
  have same : UInt16.ofNat (n + 1) = index := by
    rw [← position, UInt16.ofNat_toNat]
  have stays : isLeftover loaded n (some constant) = false := by
    simp only [isLeftover, same, isLoaded]
    cases constant with
    | invokeDynamic bootstrap signature => exact absurd rfl (other bootstrap signature)
    | _ => rfl
  rw [getElem?_blankLeftovers, slot, Option.map_some, stays]
  rfl

theorem loadable_blankLeftovers {loaded : Std.HashSet UInt16} {pool : Pool} {index : UInt16}
    {value : Loadable} (isLoaded : loaded.contains index = true)
    (found : pool.loadable index = .ok value) :
    (pool.blankLeftovers loaded).loadable index = .ok value := by
  obtain ⟨constant, entry, next⟩ := bind_eq_ok.mp found
  have held := entry_eq_ok.mp entry
  have other (bootstrap signature : UInt16) : constant ≠ .invokeDynamic bootstrap signature := by
    rintro rfl
    cases next
  have kept := entry?_blankLeftovers_of_loaded held isLoaded other
  exact (blanked_blankLeftovers loaded pool).retains.loadable held kept found

end Pool

/-! ## Tidying up -/

namespace ClassFile

/-- What tidying up makes of a class. -/
structure TidiedInto (c c' : ClassFile) : Prop where
  /-- While the table is needed, nothing changes. -/
  needed : c.NeedsTable → c' = c
  /-- Only attributes and constants can change. -/
  frame : c' = { c with attributes := c'.attributes, pool := c'.pool }
  /-- The other attributes stay in their order. -/
  attributes : ¬ c.NeedsTable → c'.attributes = Attribute.withoutBootstrap c.pool c.attributes
  /-- No attribute that is left has the name of a bootstrap table. -/
  tableless : ¬ c.NeedsTable → ∀ a ∈ c'.attributes,
    ∃ text, c'.pool.utf8 a.name = .ok text ∧ text ≠ BootstrapMethod.attributeName
  /-- With dynamic linkage, no constant changes. -/
  linked : 51 ≤ c.version.major.toNat → c'.pool = c.pool
  /-- Without dynamic linkage, no call site is left among the constants. -/
  siteless : ¬ c.NeedsTable → c.version.major.toNat < 51 →
    ∀ bootstrap signature, some (.invokeDynamic bootstrap signature) ∉ c'.pool.slots
  /-- Nor is a method handle or a method type that nothing loads. -/
  loaded : ¬ c.NeedsTable → c.version.major.toNat < 51 → ∀ n constant,
    c'.pool.slots[n]? = some (some constant) → constant.servesLinkage = true →
      c.Loads (UInt16.ofNat (n + 1))
  /-- Every constant stays where it is, or is blanked. -/
  inPlace : Pool.Blanked c.pool c'.pool
  utf8 : ∀ index text, c.pool.utf8 index = .ok text → c'.pool.utf8 index = .ok text
  className : ∀ index name, c.pool.className index = .ok name → c'.pool.className index = .ok name
  nameAndType : ∀ index signature, c.pool.nameAndType index = .ok signature →
    c'.pool.nameAndType index = .ok signature
  memberRef : ∀ index reference, c.pool.memberRef index = .ok reference →
    c'.pool.memberRef index = .ok reference
  /-- What an instruction loads, it goes on loading. -/
  loadable : ∀ index value, c.Loads index → c.pool.loadable index = .ok value →
    c'.pool.loadable index = .ok value
  /-- Tidying up again succeeds and changes nothing. -/
  again : ∀ notes, ∃ notes', c'.tidyBootstrap.run notes = (.ok c', notes')

section Tidied

variable {c : ClassFile} {code : List Placed} (tidies : c.Tidies code)
include tidies

theorem tidied_tidied : (c.tidied code).tidied code = c.tidied code := by
  have same : ((c.tidied code).atVersion c.version).tidied code =
      (c.atVersion c.version).tidied code := tidied_again tidies fun linkage => linkage
  have version : (c.tidied code).atVersion c.version = c.tidied code := by
    rw [tidied_frame]
    rfl
  rwa [version, show c.atVersion c.version = c from rfl] at same

/-- No name that is left reads as that of a table, before or after. -/
theorem tableless_tidied (unneeded : c.needsBootstrap code = false) {a : Attribute}
    (left : a ∈ (c.tidied code).attributes) :
    ∃ text, (c.tidied code).pool.utf8 a.name = .ok text ∧
      text ≠ BootstrapMethod.attributeName := by
  rw [tidied_attributes unneeded] at left
  obtain ⟨member, other⟩ := List.mem_filter.mp left
  obtain ⟨text, read⟩ := tidies.2 unneeded a member
  rw [Attribute.isBootstrap_of_utf8 read] at other
  exact ⟨text, (c.tidied_blanked code).retains.utf8 read, by simpa using other⟩

theorem loadable_tidied {index : UInt16} {value : Loadable} (loads : c.Loads index)
    (found : c.pool.loadable index = .ok value) :
    (c.tidied code).pool.loadable index = .ok value := by
  have isLoaded := (contains_loadedIndices_iff tidies.1).mpr loads
  unfold tidied
  split
  · exact found
  · split
    · exact found
    · exact Pool.loadable_blankLeftovers isLoaded found

theorem tidiedInto_tidied : c.TidiedInto (c.tidied code) := by
  have needs := needsBootstrap_iff tidies.1
  have retains := (c.tidied_blanked code).retains
  have unneeded (absent : ¬ c.NeedsTable) : c.needsBootstrap code = false :=
    Bool.eq_false_iff.mpr fun needed => absent (needs.mp needed)
  have pool (absent : ¬ c.NeedsTable) (old : c.version.major.toNat < 51) :
      (c.tidied code).pool = c.pool.blankLeftovers (loadedIndices code) := by
    have noLinkage : ¬ c.version.dynamicLinkage = true := by
      simp only [Version.dynamicLinkage, decide_eq_true_eq]
      omega
    rw [tidied_of_unneeded (unneeded absent)]
    exact if_neg noLinkage
  refine
    { needed := fun needed => tidied_of_needed (needs.mpr needed)
      frame := c.tidied_frame code
      attributes := fun absent => tidied_attributes (unneeded absent)
      tableless := fun absent a left => tableless_tidied tidies (unneeded absent) left
      linked := fun late => tidied_pool_of_linkage (decide_eq_true late) code
      siteless := fun absent old bootstrap signature member => ?_
      loaded := fun absent old n constant held linkage => ?_
      inPlace := c.tidied_blanked code
      utf8 := fun _ _ => retains.utf8
      className := fun _ _ => retains.className
      nameAndType := fun _ _ => retains.nameAndType
      memberRef := fun _ _ => retains.memberRef
      loadable := fun _ _ => loadable_tidied tidies
      again := fun notes => ?_ }
  · obtain ⟨n, held⟩ := Array.mem_iff_getElem?.mp member
    rw [pool absent old] at held
    exact (Pool.loaded_of_blankLeftovers held rfl).1 bootstrap signature rfl
  · rw [pool absent old] at held
    exact (contains_loadedIndices_iff tidies.1).mp (Pool.loaded_of_blankLeftovers held linkage).2
  · refine (gives_tidyBootstrap (c.tidied code)).run ⟨code, tidies_tidied tidies, ?_⟩ notes
    exact (tidied_tidied tidies).symm

end Tidied

/-- Tidying up is safe, complete and done once, whatever the class. -/
theorem tidyBootstrap_tidies {c c' : ClassFile} {notes notes' : Array Note}
    (ran : c.tidyBootstrap.run notes = (.ok c', notes')) : c.TidiedInto c' := by
  obtain ⟨code, tidies, rfl⟩ := (gives_tidyBootstrap c).of_run ran
  exact tidiedInto_tidied tidies

end ClassFile

/-! ## A class that loads a method handle

The bootstrap table is left over, and so are its method handle, a method type and a call site;
the method handle at index 16 is loaded. -/

namespace Loading

def input : ClassFile :=
  { Looping.input with
    version := ⟨50, 0⟩
    pool := ⟨Looping.input.pool.slots ++ #[some (.methodHandle 6 11), some (.methodType 4)]⟩
    methods := [⟨8, 3, 4, [⟨5, Body.write ⟨1, 0, [0x12, 16, 0x57, 0xB1], [], []⟩⟩]⟩] }

def code : List Placed :=
  [⟨0, .load Opcode.ldc 16⟩, ⟨2, .plain 0x57 []⟩, ⟨3, .plain 0xB1 []⟩]

theorem tidies : input.Tidies code := by
  refine ⟨by decide +kernel, fun _ a member => ?_⟩
  obtain rfl := List.mem_singleton.mp member
  exact ⟨"BootstrapMethods", by decide +kernel⟩

end Loading

theorem tidyBootstrap_tidies_loading :
    ¬ Loading.input.NeedsTable ∧ Loading.input.Loads 16 ∧ ∃ c' notes',
      Loading.input.tidyBootstrap.run #[] = (.ok c', notes') ∧ Loading.input.TidiedInto c' := by
  have unneeded : ¬ Loading.input.NeedsTable := fun needs =>
    absurd ((ClassFile.needsBootstrap_iff Loading.tidies.1).mpr needs) (by decide +kernel)
  have loads : Loading.input.Loads 16 :=
    ⟨⟨0, .load Opcode.ldc 16⟩, Opcode.ldc,
      (ClassFile.mem_instructions_iff Loading.tidies.1).mp (by decide), rfl⟩
  obtain ⟨notes', ran⟩ := (ClassFile.gives_tidyBootstrap Loading.input).run
    ⟨Loading.code, Loading.tidies, rfl⟩ #[]
  exact ⟨unneeded, loads, _, notes', ran, ClassFile.tidyBootstrap_tidies ran⟩

end Downlevel
