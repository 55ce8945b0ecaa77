/-
# Downlevel.Proofs.Bootstrap — what tidying up leaves

Tidying up leaves a class as it is while anything needs the bootstrap table. Otherwise it
drops the attributes of that name and, for a version without dynamic linkage, blanks the
constants that only dynamic linkage knows (`ClassFile.tidied`). No lookup of any other
constant notices (`Blanked.retains`).

Tidying up after the version has been lowered further gives the same whether or not the
class was tidied up before (`tidied_again`).
-/
import Downlevel.Bootstrap
import Downlevel.Proofs.ClassFile.Names
import Downlevel.Proofs.ClassFile.RoundTrip
import Downlevel.Proofs.Note

namespace Downlevel

set_option autoImplicit false

open Sequencing Noted

/-! ## Blanking -/

namespace Pool

/-- What blanking does to a slot: nothing, unless it holds a constant that serves dynamic
linkage. -/
def BlankedSlot (before after : Option Constant) : Prop :=
  after = before ∨
    ∃ constant, before = some constant ∧ constant.servesLinkage = true ∧ after = some blank

/-- The pool with some constants that serve dynamic linkage blanked. -/
def Blanked (before after : Pool) : Prop :=
  List.Forall₂ BlankedSlot before.slots.toList after.slots.toList

theorem Blanked.refl (pool : Pool) : Blanked pool pool :=
  List.forall₂_same.mpr fun _ _ => .inl rfl

theorem blankedSlot_leftover (loaded : Std.HashSet UInt16) (n : Nat) (slot : Option Constant) :
    BlankedSlot slot (if isLeftover loaded n slot then some blank else slot) := by
  by_cases leftover : isLeftover loaded n slot = true
  · rw [if_pos leftover]
    cases slot with
    | none => cases leftover
    | some constant =>
        refine .inr ⟨constant, rfl, ?_, rfl⟩
        cases constant with
        | invokeDynamic => rfl
        | methodHandle => rfl
        | methodType => rfl
        | _ => cases leftover
  · rw [if_neg leftover]
    exact .inl rfl

theorem blanked_blankLeftovers (loaded : Std.HashSet UInt16) (pool : Pool) :
    Blanked pool (pool.blankLeftovers loaded) := by
  unfold Blanked blankLeftovers
  rw [Array.toList_mapIdx]
  have slotwise (slots : List (Option Constant)) (f : Nat → Option Constant → Option Constant)
      (each : ∀ n slot, BlankedSlot slot (f n slot)) :
      List.Forall₂ BlankedSlot slots (slots.mapIdx f) := by
    induction slots generalizing f with
    | nil => exact .nil
    | cons slot slots ih =>
        rw [List.mapIdx_cons]
        exact .cons (each 0 slot) (ih _ fun n slot => each (n + 1) slot)
  exact slotwise _ _ (blankedSlot_leftover loaded)

theorem Blanked.retains {before after : Pool} (blanked : Blanked before after) :
    Retains before after := by
  intro index constant plain found
  obtain ⟨n, position, slot⟩ := entry?_eq_some.mp found
  refine entry?_eq_some.mpr ⟨n, position, ?_⟩
  rw [← Array.getElem?_toList] at slot ⊢
  obtain ⟨slot', held, same | ⟨other, same, linkage, -⟩⟩ := round_at blanked slot
  · rw [held, same]
  · obtain rfl := Option.some.inj same
    rw [plain] at linkage
    cases linkage

theorem Shaped.blanked {before after : List (Option Constant)} (shaped : Shaped before)
    (blanked : List.Forall₂ BlankedSlot before after) : Shaped after := by
  induction shaped generalizing after with
  | nil =>
      cases blanked
      exact .nil
  | narrow fits narrow _ ih =>
      cases blanked with
      | cons first others =>
          rcases first with rfl | ⟨constant, -, -, rfl⟩
          · exact .narrow fits narrow (ih others)
          · exact .narrow (by exact Nat.zero_lt_succ _) rfl (ih others)
  | @wide constant slots fits wide _ ih =>
      cases blanked with
      | cons first others =>
          cases others with
          | cons second others =>
              rcases first with rfl | ⟨other, same, linkage, -⟩
              · rcases second with rfl | ⟨other, impossible, -⟩
                · exact .wide fits wide (ih others)
                · cases impossible
              · obtain rfl := Option.some.inj same
                cases constant with
                | long => cases linkage
                | double => cases linkage
                | _ => cases wide

theorem Blanked.fits {before after : Pool} (blanked : Blanked before after) (fits : before.Fits) :
    after.Fits := by
  refine ⟨fits.shaped.blanked blanked, ?_⟩
  have length := blanked.length_eq
  rw [Array.length_toList, Array.length_toList] at length
  rw [← length]
  exact fits.bounded

theorem Blanked.hasDynamic {before after : Pool} (blanked : Blanked before after) :
    after.hasDynamic = before.hasDynamic := by
  unfold Pool.hasDynamic
  rw [← Array.any_toList, ← Array.any_toList]
  unfold Blanked at blanked
  generalize before.slots.toList = slots, after.slots.toList = slots' at blanked ⊢
  induction blanked with
  | nil => rfl
  | @cons slot slot' slots slots' first _ ih =>
      rw [List.any_cons, List.any_cons, ih]
      congr 1
      rcases first with rfl | ⟨constant, rfl, linkage, rfl⟩
      · rfl
      · cases constant with
        | dynamic => cases linkage
        | _ => rfl

theorem blankLeftovers_idem (loaded : Std.HashSet UInt16) (pool : Pool) :
    (pool.blankLeftovers loaded).blankLeftovers loaded = pool.blankLeftovers loaded := by
  unfold blankLeftovers
  rw [Array.mapIdx_mapIdx]
  congr 2
  funext n slot
  by_cases leftover : isLeftover loaded n slot = true
  · simp only [Function.comp, if_pos leftover]
    rfl
  · simp only [Function.comp, if_neg leftover]

end Pool

/-! ## The attribute -/

namespace Attribute

/-- Whether the attribute's name reads as that of a bootstrap table. -/
def isBootstrap (pool : Pool) (a : Attribute) : Bool :=
  match a.isNamed pool BootstrapMethod.attributeName with
  | .ok named => named
  | .error _ => false

theorem isBootstrap_of_utf8 {pool : Pool} {a : Attribute} {text : String}
    (read : pool.utf8 a.name = .ok text) :
    a.isBootstrap pool = (text == BootstrapMethod.attributeName) := by
  unfold isBootstrap
  rw [isNamed_of_utf8 read]

/-- Names that stay readable decide alike. -/
theorem isBootstrap_of_retains {before after : Pool} (retains : Pool.Retains before after)
    {a : Attribute} (readable : ∃ text, before.utf8 a.name = .ok text) :
    a.isBootstrap after = a.isBootstrap before := by
  obtain ⟨text, read⟩ := readable
  rw [isBootstrap_of_utf8 read, isBootstrap_of_utf8 (retains.utf8 read)]

/-- What becomes of an attribute: it has to have a readable name, and goes if it is a
bootstrap table. -/
def Sifted (pool : Pool) (a : Attribute) (result : Option Attribute) : Prop :=
  (∃ text, pool.utf8 a.name = .ok text) ∧ result = if a.isBootstrap pool then none else some a

theorem gives_unlessBootstrap (pool : Pool) (a : Attribute) :
    (a.unlessBootstrap pool).Gives (Sifted pool a) := by
  refine ((gives_check (a.isNamed pool BootstrapMethod.attributeName)).bind fun named =>
    ((gives_write _).bind fun _ => gives_pure none).ite (gives_pure (some a))).congr
    fun result => ?_
  constructor
  · rintro ⟨named, found, did⟩
    obtain ⟨text, read, rfl⟩ := isNamed_eq_ok.mp found
    refine ⟨⟨text, read⟩, ?_⟩
    rw [isBootstrap_of_utf8 read]
    rcases did with ⟨holds, _, _, rfl⟩ | ⟨fails, rfl⟩
    · exact (if_pos holds).symm
    · exact (if_neg fails).symm
  · rintro ⟨⟨text, read⟩, rfl⟩
    refine ⟨_, isNamed_of_utf8 read _, ?_⟩
    rw [isBootstrap_of_utf8 read]
    by_cases holds : (text == BootstrapMethod.attributeName) = true
    · exact .inl ⟨holds, (), trivial, if_pos holds⟩
    · exact .inr ⟨holds, if_neg holds⟩

/-- The attributes that are no bootstrap tables. -/
def withoutBootstrap (pool : Pool) (attributes : List Attribute) : List Attribute :=
  attributes.filter fun a => !a.isBootstrap pool

theorem reduceOption_of_sifted {pool : Pool} {attributes : List Attribute}
    {results : List (Option Attribute)} (sifted : List.Forall₂ (Sifted pool) attributes results) :
    (∀ a ∈ attributes, ∃ text, pool.utf8 a.name = .ok text) ∧
      results.reduceOption = withoutBootstrap pool attributes := by
  unfold withoutBootstrap
  induction sifted with
  | nil => exact ⟨fun a member => absurd member List.not_mem_nil, rfl⟩
  | @cons a result attributes results first _ ih =>
      obtain ⟨read, rfl⟩ := first
      refine ⟨fun b member => ?_, ?_⟩
      · rcases List.mem_cons.mp member with rfl | member
        · exact read
        · exact ih.1 b member
      · cases decided : a.isBootstrap pool with
        | true => simpa [decided] using ih.2
        | false => simpa [decided] using ih.2

theorem gives_withoutBootstrap (pool : Pool) (attributes : List Attribute) :
    (attributes.filterMapM (unlessBootstrap pool)).Gives fun kept =>
      (∀ a ∈ attributes, ∃ text, pool.utf8 a.name = .ok text) ∧
        kept = withoutBootstrap pool attributes := by
  refine (Gives.filterMapM (gives_unlessBootstrap pool) attributes).congr fun kept => ?_
  constructor
  · rintro ⟨results, sifted, rfl⟩
    exact reduceOption_of_sifted sifted
  · rintro ⟨reads, rfl⟩
    have sifted : List.Forall₂ (Sifted pool) attributes
        (attributes.map fun a => if a.isBootstrap pool then none else some a) := by
      rw [List.forall₂_map_right_iff, List.forall₂_same]
      exact fun a member => ⟨reads a member, rfl⟩
    exact ⟨_, sifted, (reduceOption_of_sifted sifted).2.symm⟩

end Attribute

/-! ## Other versions

What is said of a class apart from its version is said here for any version, a variable:
comparing the versions themselves would unfold their order. -/

/-- The class with another version. -/
def ClassFile.atVersion (c : ClassFile) (version : Version) : ClassFile :=
  { c with version := version }

namespace ClassFile

variable (c : ClassFile) (version : Version)

@[simp] theorem atVersion_pool : (c.atVersion version).pool = c.pool := rfl

@[simp] theorem atVersion_attributes : (c.atVersion version).attributes = c.attributes := rfl

end ClassFile

/-! ## The table and the code -/

theorem bootstrapMethods_eq_ok {c : ClassFile} {table : List BootstrapMethod} :
    c.bootstrapMethods = .ok table ↔
      Attribute.position c.pool BootstrapMethod.attributeName c.attributes = .ok none ∧
          table = [] ∨
        ∃ n a, Attribute.position c.pool BootstrapMethod.attributeName c.attributes = .ok (some n) ∧
          c.attributes[n]? = some a ∧ BootstrapMethod.readTable a.info = .ok table := by
  unfold ClassFile.bootstrapMethods
  rw [bind_eq_ok]
  constructor
  · rintro ⟨place, positioned, next⟩
    cases place with
    | none =>
        obtain rfl := pure_eq_ok.mp next
        exact .inl ⟨positioned, rfl⟩
    | some n =>
        obtain ⟨a, held, -⟩ := Attribute.getElem?_of_position positioned
        simp only [held] at next
        exact .inr ⟨n, a, positioned, held, next⟩
  · rintro (⟨positioned, rfl⟩ | ⟨n, a, positioned, held, read⟩)
    · exact ⟨none, positioned, rfl⟩
    · refine ⟨some n, positioned, ?_⟩
      simp only [held]
      exact read

/-- The table is that of any class with the same pool and the same attributes. -/
theorem bootstrapMethods_congr {c c' : ClassFile} (pool : c'.pool = c.pool)
    (attributes : c'.attributes = c.attributes) : c'.bootstrapMethods = c.bootstrapMethods := by
  unfold ClassFile.bootstrapMethods
  rw [pool, attributes]

/-- The table is found again in a pool that holds at least the same. -/
theorem bootstrapMethods_of_retains {c c' : ClassFile} {table : List BootstrapMethod}
    (retains : Pool.Retains c.pool c'.pool) (same : c'.attributes = c.attributes)
    (found : c.bootstrapMethods = .ok table) : c'.bootstrapMethods = .ok table := by
  rw [bootstrapMethods_eq_ok] at found ⊢
  rw [same]
  rcases found with ⟨positioned, rfl⟩ | ⟨n, a, positioned, held, read⟩
  · exact .inl ⟨retains.position positioned, rfl⟩
  · exact .inr ⟨n, a, retains.position positioned, held, read⟩

theorem Member.instructions_eq_ok {pool : Pool} {m : Member} {code : List Placed} :
    m.instructions pool = .ok code ↔
      m.bodyInfo pool = .ok none ∧ code = [] ∨
        ∃ info body, m.bodyInfo pool = .ok (some info) ∧ Body.parse info = .ok body ∧
          decode body.code = .ok code := by
  unfold instructions body
  constructor
  · intro found
    obtain ⟨body?, read, next⟩ := bind_eq_ok.mp found
    obtain ⟨info?, held, read⟩ := bind_eq_ok.mp read
    cases info? with
    | none =>
        cases read
        cases next
        exact .inl ⟨held, rfl⟩
    | some info =>
        obtain ⟨body, parsed, same⟩ := bind_eq_ok.mp read
        cases same
        exact .inr ⟨info, body, held, parsed, next⟩
  · rintro (⟨held, rfl⟩ | ⟨info, body, held, parsed, decoded⟩)
    · exact bind_eq_ok.mpr ⟨none, bind_eq_ok.mpr ⟨none, held, rfl⟩, rfl⟩
    · exact bind_eq_ok.mpr ⟨some body, bind_eq_ok.mpr ⟨some info, held,
        bind_eq_ok.mpr ⟨body, parsed, rfl⟩⟩, decoded⟩

theorem Pool.Retains.instructions {before after : Pool} (retains : Pool.Retains before after)
    {m : Member} {code : List Placed} (found : m.instructions before = .ok code) :
    m.instructions after = .ok code := by
  rw [Member.instructions_eq_ok] at found ⊢
  rcases found with ⟨bodiless, rfl⟩ | ⟨info, body, held, parsed, decoded⟩
  · exact .inl ⟨retains.bodyInfo bodiless, rfl⟩
  · exact .inr ⟨info, body, retains.bodyInfo held, parsed, decoded⟩

theorem ClassFile.instructions_of_retains {c c' : ClassFile} {code : List Placed}
    (retains : Pool.Retains c.pool c'.pool) (same : c'.methods = c.methods)
    (found : c.instructions = .ok code) : c'.instructions = .ok code := by
  obtain ⟨pieces, each, joined⟩ := bind_eq_ok.mp found
  refine bind_eq_ok.mpr ⟨pieces, ?_, joined⟩
  rw [same, mapM_eq_ok]
  exact (mapM_eq_ok.mp each).imp fun _ _ => retains.instructions

/-- The code of a class holds that of each of its methods. -/
theorem ClassFile.mem_instructions {c : ClassFile} {all code : List Placed}
    (found : c.instructions = .ok all) {m : Member} (member : m ∈ c.methods)
    (own : m.instructions c.pool = .ok code) {p : Placed} (held : p ∈ code) : p ∈ all := by
  obtain ⟨pieces, each, joined⟩ := bind_eq_ok.mp found
  obtain rfl := pure_eq_ok.mp joined
  obtain ⟨n, place⟩ := List.mem_iff_getElem?.mp member
  obtain ⟨piece, found, same⟩ := round_at (mapM_eq_ok.mp each) place
  obtain rfl := Except.ok.inj (own.symm.trans same)
  exact List.mem_flatten.mpr ⟨code, List.mem_of_getElem? found, held⟩

/-! ## Tidying up -/

namespace ClassFile

/-- The class without what only the bootstrap table needed, given the code of its methods. -/
def tidied (c : ClassFile) (code : List Placed) : ClassFile :=
  if c.needsBootstrap code then c
  else
    { c with
      attributes := Attribute.withoutBootstrap c.pool c.attributes
      pool := if c.version.dynamicLinkage then c.pool
        else c.pool.blankLeftovers (loadedIndices code) }

/-- Tidying up has to read the code of all methods and, if the table goes, the names of all
attributes. -/
def Tidies (c : ClassFile) (code : List Placed) : Prop :=
  c.instructions = .ok code ∧
    (c.needsBootstrap code = false → ∀ a ∈ c.attributes, ∃ text, c.pool.utf8 a.name = .ok text)

theorem gives_events (leftovers : List Nat) (f : Nat → Noted Unit)
    (each : ∀ n, (f n).Gives fun _ => True) : (leftovers.forM f).Gives fun _ => True := by
  induction leftovers with
  | nil => exact (gives_pure ()).congr fun _ => by simp
  | cons n leftovers ih =>
      show (f n >>= fun _ => leftovers.forM f).Gives _
      exact ((each n).bind fun _ => ih).congr fun _ => by simp

theorem gives_tidyBootstrap (c : ClassFile) :
    c.tidyBootstrap.Gives fun c' => ∃ code, c.Tidies code ∧ c' = c.tidied code := by
  refine ((gives_check c.instructions).bind fun code => (gives_pure c).ite
    ((Attribute.gives_withoutBootstrap c.pool c.attributes).bind fun attributes =>
      (gives_pure _).ite ((gives_events _ _ fun n => gives_write _).bind fun _ =>
        gives_pure _))).congr fun c' => ?_
  unfold Tidies tidied
  constructor
  · rintro ⟨code, read, ⟨needed, rfl⟩ | ⟨unneeded, attributes, ⟨reads, rfl⟩, did⟩⟩
    · exact ⟨code, ⟨read, fun absent => by simp [needed] at absent⟩, (if_pos needed).symm⟩
    · refine ⟨code, ⟨read, fun _ => reads⟩, ?_⟩
      rw [if_neg unneeded]
      rcases did with ⟨linkage, rfl⟩ | ⟨noLinkage, _, _, rfl⟩
      · rw [if_pos linkage]
      · rw [if_neg noLinkage]
  · rintro ⟨code, ⟨read, reads⟩, rfl⟩
    refine ⟨code, read, ?_⟩
    by_cases needed : c.needsBootstrap code = true
    · exact .inl ⟨needed, if_pos needed⟩
    · rw [if_neg needed]
      refine .inr ⟨needed, _, ⟨reads (by simpa using needed), rfl⟩, ?_⟩
      by_cases linkage : c.version.dynamicLinkage = true
      · rw [if_pos linkage]
        exact .inl ⟨linkage, rfl⟩
      · rw [if_neg linkage]
        exact .inr ⟨linkage, (), trivial, rfl⟩

/-- What has to be readable does not depend on the version. -/
theorem tidies_atVersion {c : ClassFile} {code : List Placed} {version : Version} :
    (c.atVersion version).Tidies code ↔ c.Tidies code :=
  Iff.rfl

/-- Tidying up touches the attributes and the pool only. -/
theorem tidied_frame (c : ClassFile) (code : List Placed) :
    c.tidied code =
      { c with attributes := (c.tidied code).attributes, pool := (c.tidied code).pool } := by
  unfold tidied
  split <;> rfl

/-- At any version, what no stage touches stays. -/
theorem tidied_atVersion_sameFrame (c : ClassFile) (version : Version) (code : List Placed) :
    c.SameFrame ((c.atVersion version).tidied code) := by
  rw [tidied_frame]
  exact ⟨rfl, rfl, rfl, rfl, rfl⟩

theorem tidied_atVersion_version (c : ClassFile) (version : Version) (code : List Placed) :
    ((c.atVersion version).tidied code).version = version := by
  rw [tidied_frame]
  rfl

theorem tidied_atVersion_methods (c : ClassFile) (version : Version) (code : List Placed) :
    ((c.atVersion version).tidied code).methods = c.methods := by
  rw [tidied_frame]
  rfl

theorem needsBootstrap_atVersion (c : ClassFile) (version : Version) (code : List Placed) :
    (c.atVersion version).needsBootstrap code = c.needsBootstrap code :=
  rfl

theorem needsBootstrap_of_blanked {c c' : ClassFile} {code : List Placed}
    (blanked : Pool.Blanked c.pool c'.pool) :
    c'.needsBootstrap code = c.needsBootstrap code := by
  unfold needsBootstrap
  rw [blanked.hasDynamic]

theorem tidied_blanked (c : ClassFile) (code : List Placed) :
    Pool.Blanked c.pool (c.tidied code).pool := by
  unfold tidied
  split
  · exact .refl c.pool
  · split
    · exact .refl c.pool
    · exact Pool.blanked_blankLeftovers _ c.pool

/-- With dynamic linkage, no constant is blanked. -/
theorem tidied_pool_of_linkage {c : ClassFile} (linkage : c.version.dynamicLinkage = true)
    (code : List Placed) : (c.tidied code).pool = c.pool := by
  by_cases needed : c.needsBootstrap code = true
  · rw [tidied, if_pos needed]
  · rw [tidied, if_neg needed]
    exact if_pos linkage

theorem tidied_atVersion_pool (c : ClassFile) {version : Version}
    (linkage : version.dynamicLinkage = true) (code : List Placed) :
    ((c.atVersion version).tidied code).pool = c.pool :=
  tidied_pool_of_linkage linkage code

theorem tidied_of_needed {c : ClassFile} {code : List Placed}
    (needed : c.needsBootstrap code = true) : c.tidied code = c :=
  if_pos needed

theorem tidied_of_unneeded {c : ClassFile} {code : List Placed}
    (unneeded : c.needsBootstrap code = false) :
    c.tidied code =
      { c with
        attributes := Attribute.withoutBootstrap c.pool c.attributes
        pool := if c.version.dynamicLinkage then c.pool
          else c.pool.blankLeftovers (loadedIndices code) } :=
  if_neg (by simp [unneeded])

theorem tidied_attributes {c : ClassFile} {code : List Placed}
    (unneeded : c.needsBootstrap code = false) :
    (c.tidied code).attributes = Attribute.withoutBootstrap c.pool c.attributes := by
  rw [tidied_of_unneeded unneeded]

/-- The attributes that are left have readable names, and none is a bootstrap table. -/
theorem withoutBootstrap_self {before after : Pool} (retains : Pool.Retains before after)
    {attributes : List Attribute} (reads : ∀ a ∈ attributes, ∃ text, before.utf8 a.name = .ok text) :
    Attribute.withoutBootstrap after (Attribute.withoutBootstrap before attributes) =
      Attribute.withoutBootstrap before attributes := by
  unfold Attribute.withoutBootstrap
  rw [List.filter_eq_self]
  intro a member
  obtain ⟨member, other⟩ := List.mem_filter.mp member
  rw [Attribute.isBootstrap_of_retains retains (reads a member)]
  exact other

/-- Lowering the version further and tidying up again gives what tidying up at the lower
version gives at once. -/
theorem tidied_again {c : ClassFile} {code : List Placed} {version : Version}
    (tidies : c.Tidies code)
    (lower : version.dynamicLinkage = true → c.version.dynamicLinkage = true) :
    ((c.tidied code).atVersion version).tidied code = (c.atVersion version).tidied code := by
  cases needed : c.needsBootstrap code with
  | true => rw [tidied_of_needed needed]
  | false =>
      have blanked := c.tidied_blanked code
      have still : ((c.tidied code).atVersion version).needsBootstrap code = false :=
        (needsBootstrap_of_blanked blanked).trans needed
      have attributes : Attribute.withoutBootstrap (c.tidied code).pool (c.tidied code).attributes =
          Attribute.withoutBootstrap c.pool c.attributes := by
        rw [tidied_attributes needed]
        exact withoutBootstrap_self blanked.retains (tidies.2 needed)
      have pool : (if version.dynamicLinkage then (c.tidied code).pool
            else (c.tidied code).pool.blankLeftovers (loadedIndices code)) =
          if version.dynamicLinkage then c.pool
            else c.pool.blankLeftovers (loadedIndices code) := by
        by_cases linkage : c.version.dynamicLinkage = true
        · rw [tidied_pool_of_linkage linkage]
        · have noLinkage : ¬ version.dynamicLinkage = true := fun later => linkage (lower later)
          rw [if_neg noLinkage, if_neg noLinkage, tidied_of_unneeded needed]
          simp only [if_neg linkage]
          exact Pool.blankLeftovers_idem _ _
      rw [tidied_of_unneeded still,
        tidied_of_unneeded (show (c.atVersion version).needsBootstrap code = false from needed)]
      simp only [atVersion, attributes]
      rw [tidied_frame]
      congr 1

theorem tidied_atVersion_again {c : ClassFile} {code : List Placed} {version version' : Version}
    (tidies : c.Tidies code)
    (lower : version'.dynamicLinkage = true → version.dynamicLinkage = true) :
    (((c.atVersion version).tidied code).atVersion version').tidied code =
      (c.atVersion version').tidied code :=
  tidied_again (tidies_atVersion.mpr tidies) lower

/-- What has to be readable stays readable. -/
theorem tidies_tidied {c : ClassFile} {code : List Placed} (tidies : c.Tidies code) :
    (c.tidied code).Tidies code := by
  have blanked := c.tidied_blanked code
  refine ⟨instructions_of_retains blanked.retains ?_ tidies.1, fun unneeded a member => ?_⟩
  · rw [tidied_frame]
  · rw [needsBootstrap_of_blanked blanked] at unneeded
    rw [tidied_attributes unneeded] at member
    obtain ⟨text, read⟩ := tidies.2 unneeded a (List.mem_filter.mp member).1
    exact ⟨text, blanked.retains.utf8 read⟩

/-- What is left of the table after tidying up: all of it, or nothing. -/
theorem bootstrapMethods_tidied {c : ClassFile} {code : List Placed}
    {table : List BootstrapMethod} (tidies : c.Tidies code) (found : c.bootstrapMethods = .ok table) :
    c.needsBootstrap code = true ∧ (c.tidied code).bootstrapMethods = .ok table ∨
      c.needsBootstrap code = false ∧ (c.tidied code).bootstrapMethods = .ok [] := by
  by_cases needed : c.needsBootstrap code = true
  · rw [tidied_of_needed needed]
    exact .inl ⟨needed, found⟩
  · rw [Bool.not_eq_true] at needed
    refine .inr ⟨needed, bootstrapMethods_eq_ok.mpr (.inl ⟨?_, rfl⟩)⟩
    rw [tidied_attributes needed]
    refine Attribute.position_eq_none.mpr fun a member => ?_
    obtain ⟨member, other⟩ := List.mem_filter.mp member
    obtain ⟨text, read⟩ := tidies.2 needed a member
    rw [Attribute.isBootstrap_of_utf8 read] at other
    have named := Attribute.isNamed_of_utf8 ((c.tidied_blanked code).retains.utf8 read)
      BootstrapMethod.attributeName
    rwa [(Bool.not_eq_true' _).mp other] at named

end ClassFile

end Downlevel
