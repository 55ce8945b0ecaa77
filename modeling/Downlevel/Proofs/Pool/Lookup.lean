/-
# Downlevel.Proofs.Pool.Lookup — lookups that go on succeeding

While a class is lowered its pool changes in two ways: constants are appended, and in the
end those that only serve dynamic linkage may be blanked. `Extends` says that every
constant of a pool is in another at the same index, `Retains` the same of every constant
that does not serve dynamic linkage. What was looked up with success is found again in
both cases, except that method handles, dynamic call sites and loadable constants are only
safe from appending, or as long as they are not blanked themselves.

The reverse does not hold: a dangling index may come to name something.
-/
import Downlevel.Pool.Lookup
import Downlevel.Proofs.Sequencing

namespace Downlevel

set_option autoImplicit false

open Sequencing

/-- Whether the constant is of a kind that only dynamic linkage knows. -/
def Constant.servesLinkage : Constant → Bool
  | .invokeDynamic _ _ => true
  | .methodHandle _ _ => true
  | .methodType _ => true
  | _ => false

namespace Pool

/-! ## What a successful lookup has found -/

theorem entry?_eq_some {pool : Pool} {index : UInt16} {constant : Constant} :
    pool.entry? index = some constant ↔
      ∃ n, index.toNat = n + 1 ∧ pool.slots[n]? = some (some constant) := by
  unfold entry?
  split
  · rename_i zero
    simp [zero]
  · rename_i n position
    simp [position, Option.join_eq_some_iff]

theorem entry_eq_ok {pool : Pool} {index : UInt16} {constant : Constant} :
    pool.entry index = .ok constant ↔ pool.entry? index = some constant := by
  unfold entry
  cases pool.entry? index with
  | none => simp
  | some found => simp

theorem utf8_eq_ok {pool : Pool} {index : UInt16} {text : String} :
    pool.utf8 index = .ok text ↔
      ∃ bytes, pool.entry? index = some (.utf8 bytes) ∧ Modified.decode? bytes = some text := by
  unfold utf8
  rw [bind_eq_ok]
  constructor
  · rintro ⟨constant, found, next⟩
    cases constant with
    | utf8 bytes =>
        simp only at next
        cases decoded : Modified.decode? bytes with
        | none =>
            rw [decoded] at next
            cases next
        | some text' =>
            rw [decoded] at next
            cases next
            exact ⟨bytes, entry_eq_ok.mp found, decoded⟩
    | _ => cases next
  · rintro ⟨bytes, found, decoded⟩
    refine ⟨.utf8 bytes, entry_eq_ok.mpr found, ?_⟩
    simp only [decoded]

theorem className_eq_ok {pool : Pool} {index : UInt16} {name : String} :
    pool.className index = .ok name ↔
      ∃ text, pool.entry? index = some (.classRef text) ∧ pool.utf8 text = .ok name := by
  unfold className
  rw [bind_eq_ok]
  constructor
  · rintro ⟨constant, found, next⟩
    cases constant with
    | classRef text => exact ⟨text, entry_eq_ok.mp found, next⟩
    | _ => cases next
  · rintro ⟨text, found, named⟩
    exact ⟨.classRef text, entry_eq_ok.mpr found, named⟩

theorem nameAndType_eq_ok {pool : Pool} {index : UInt16} {signature : String × String} :
    pool.nameAndType index = .ok signature ↔
      ∃ name descriptor, pool.entry? index = some (.nameAndType name descriptor) ∧
        pool.utf8 name = .ok signature.1 ∧ pool.utf8 descriptor = .ok signature.2 := by
  unfold nameAndType
  rw [bind_eq_ok]
  constructor
  · rintro ⟨constant, found, next⟩
    cases constant with
    | nameAndType name descriptor =>
        obtain ⟨first, named, next⟩ := bind_eq_ok.mp next
        obtain ⟨second, described, same⟩ := bind_eq_ok.mp next
        obtain rfl := pure_eq_ok.mp same
        exact ⟨name, descriptor, entry_eq_ok.mp found, named, described⟩
    | _ => cases next
  · rintro ⟨name, descriptor, found, named, described⟩
    refine ⟨.nameAndType name descriptor, entry_eq_ok.mpr found, ?_⟩
    exact bind_eq_ok.mpr ⟨_, named, bind_eq_ok.mpr ⟨_, described, rfl⟩⟩

theorem member_eq_ok {pool : Pool} {owner signature : UInt16} {ofInterface : Bool}
    {reference : MemberRef} :
    pool.member owner signature ofInterface = .ok reference ↔
      pool.nameAndType signature = .ok (reference.name, reference.descriptor) ∧
        pool.className owner = .ok reference.owner ∧ reference.ofInterface = ofInterface := by
  unfold member
  rw [bind_eq_ok]
  constructor
  · rintro ⟨⟨name, descriptor⟩, signed, next⟩
    obtain ⟨ownerName, owned, same⟩ := bind_eq_ok.mp next
    obtain rfl := pure_eq_ok.mp same
    exact ⟨signed, owned, rfl⟩
  · rintro ⟨signed, owned, rfl⟩
    exact ⟨_, signed, bind_eq_ok.mpr ⟨_, owned, rfl⟩⟩

theorem methodHandle_eq_ok {pool : Pool} {index : UInt16} {handle : MethodHandle} :
    pool.methodHandle index = .ok handle ↔
      ∃ code reference, pool.entry? index = some (.methodHandle code reference) ∧
        pool.memberRef reference = .ok handle.member ∧
        ReferenceKind.ofCode? code = some handle.kind := by
  unfold methodHandle
  rw [bind_eq_ok]
  constructor
  · rintro ⟨constant, found, next⟩
    cases constant with
    | methodHandle code reference =>
        obtain ⟨target, followed, next⟩ := bind_eq_ok.mp next
        cases known : ReferenceKind.ofCode? code with
        | none =>
            rw [known] at next
            cases next
        | some kind =>
            rw [known] at next
            obtain rfl := pure_eq_ok.mp next
            exact ⟨code, reference, entry_eq_ok.mp found, followed, known⟩
    | _ => cases next
  · rintro ⟨code, reference, found, followed, known⟩
    refine ⟨.methodHandle code reference, entry_eq_ok.mpr found, ?_⟩
    refine bind_eq_ok.mpr ⟨_, followed, ?_⟩
    rw [known]
    rfl

theorem invokeDynamic_eq_ok {pool : Pool} {index : UInt16} {site : UInt16 × String × String} :
    pool.invokeDynamic index = .ok site ↔
      ∃ signature, pool.entry? index = some (.invokeDynamic site.1 signature) ∧
        pool.nameAndType signature = .ok site.2 := by
  unfold invokeDynamic
  rw [bind_eq_ok]
  constructor
  · rintro ⟨constant, found, next⟩
    cases constant with
    | invokeDynamic position signature =>
        obtain ⟨texts, signed, same⟩ := bind_eq_ok.mp next
        obtain rfl := pure_eq_ok.mp same
        exact ⟨signature, entry_eq_ok.mp found, signed⟩
    | _ => cases next
  · rintro ⟨signature, found, signed⟩
    exact ⟨_, entry_eq_ok.mpr found, bind_eq_ok.mpr ⟨_, signed, rfl⟩⟩

/-! ## Pools that hold at least the same -/

/-- Every constant is in the other pool at the same index. -/
def Extends (before after : Pool) : Prop :=
  ∀ index constant, before.entry? index = some constant → after.entry? index = some constant

/-- Every constant that does not serve dynamic linkage is in the other pool at the same
index. -/
def Retains (before after : Pool) : Prop :=
  ∀ index constant, constant.servesLinkage = false → before.entry? index = some constant →
    after.entry? index = some constant

theorem Extends.retains {before after : Pool} (grows : Extends before after) :
    Retains before after :=
  fun index constant _ found => grows index constant found

theorem Extends.trans {before middle after : Pool} (first : Extends before middle)
    (second : Extends middle after) : Extends before after :=
  fun index constant found => second index constant (first index constant found)

theorem Retains.trans {before middle after : Pool} (first : Retains before middle)
    (second : Retains middle after) : Retains before after :=
  fun index constant plain found => second index constant plain (first index constant plain found)

/-! ## Lookups that blanking cannot reach -/

section Retains

variable {before after : Pool} (retains : Retains before after)
include retains

theorem Retains.utf8 {index : UInt16} {text : String} (found : before.utf8 index = .ok text) :
    after.utf8 index = .ok text := by
  obtain ⟨bytes, entry, decoded⟩ := utf8_eq_ok.mp found
  exact utf8_eq_ok.mpr ⟨bytes, retains _ _ rfl entry, decoded⟩

theorem Retains.className {index : UInt16} {name : String}
    (found : before.className index = .ok name) : after.className index = .ok name := by
  obtain ⟨text, entry, named⟩ := className_eq_ok.mp found
  exact className_eq_ok.mpr ⟨text, retains _ _ rfl entry, retains.utf8 named⟩

theorem Retains.nameAndType {index : UInt16} {signature : String × String}
    (found : before.nameAndType index = .ok signature) :
    after.nameAndType index = .ok signature := by
  obtain ⟨name, descriptor, entry, named, described⟩ := nameAndType_eq_ok.mp found
  exact nameAndType_eq_ok.mpr
    ⟨name, descriptor, retains _ _ rfl entry, retains.utf8 named, retains.utf8 described⟩

theorem Retains.member {owner signature : UInt16} {ofInterface : Bool} {reference : MemberRef}
    (found : before.member owner signature ofInterface = .ok reference) :
    after.member owner signature ofInterface = .ok reference := by
  obtain ⟨signed, owned, kind⟩ := member_eq_ok.mp found
  exact member_eq_ok.mpr ⟨retains.nameAndType signed, retains.className owned, kind⟩

theorem Retains.memberRef {index : UInt16} {reference : MemberRef}
    (found : before.memberRef index = .ok reference) : after.memberRef index = .ok reference := by
  obtain ⟨constant, entry, next⟩ := bind_eq_ok.mp found
  have entry := entry_eq_ok.mp entry
  cases constant with
  | fieldRef owner signature =>
      exact bind_eq_ok.mpr ⟨_, entry_eq_ok.mpr (retains _ _ rfl entry), retains.member next⟩
  | methodRef owner signature =>
      exact bind_eq_ok.mpr ⟨_, entry_eq_ok.mpr (retains _ _ rfl entry), retains.member next⟩
  | interfaceMethodRef owner signature =>
      exact bind_eq_ok.mpr ⟨_, entry_eq_ok.mpr (retains _ _ rfl entry), retains.member next⟩
  | _ => cases next

/-- A method handle that is itself kept leads to what it led to. -/
theorem Retains.methodHandle {index : UInt16} {constant : Constant} {handle : MethodHandle}
    (held : before.entry? index = some constant) (kept : after.entry? index = some constant)
    (found : before.methodHandle index = .ok handle) :
    after.methodHandle index = .ok handle := by
  obtain ⟨code, reference, entry, followed, known⟩ := methodHandle_eq_ok.mp found
  obtain rfl := Option.some.inj (held.symm.trans entry)
  exact methodHandle_eq_ok.mpr ⟨code, reference, kept, retains.memberRef followed, known⟩

/-- A constant that is itself kept loads as it did. -/
theorem Retains.loadable {index : UInt16} {constant : Constant} {value : Loadable}
    (held : before.entry? index = some constant) (kept : after.entry? index = some constant)
    (found : before.loadable index = .ok value) : after.loadable index = .ok value := by
  obtain ⟨constant', entry, next⟩ := bind_eq_ok.mp found
  obtain rfl := Option.some.inj (held.symm.trans (entry_eq_ok.mp entry))
  refine bind_eq_ok.mpr ⟨constant, entry_eq_ok.mpr kept, ?_⟩
  cases constant with
  | string text =>
      obtain ⟨decoded, followed, same⟩ := bind_eq_ok.mp next
      exact bind_eq_ok.mpr ⟨decoded, retains.utf8 followed, same⟩
  | classRef text =>
      obtain ⟨decoded, followed, same⟩ := bind_eq_ok.mp next
      exact bind_eq_ok.mpr ⟨decoded, retains.utf8 followed, same⟩
  | methodType text =>
      obtain ⟨decoded, followed, same⟩ := bind_eq_ok.mp next
      exact bind_eq_ok.mpr ⟨decoded, retains.utf8 followed, same⟩
  | methodHandle code reference =>
      obtain ⟨handle, followed, same⟩ := bind_eq_ok.mp next
      exact bind_eq_ok.mpr ⟨handle, retains.methodHandle held kept followed, same⟩
  | dynamic position signature =>
      obtain ⟨texts, followed, same⟩ := bind_eq_ok.mp next
      exact bind_eq_ok.mpr ⟨texts, retains.nameAndType followed, same⟩
  | _ => exact next

end Retains

/-! ## Lookups that appending cannot reach -/

section Extends

variable {before after : Pool} (grows : Extends before after)
include grows

theorem Extends.methodHandle {index : UInt16} {handle : MethodHandle}
    (found : before.methodHandle index = .ok handle) :
    after.methodHandle index = .ok handle := by
  obtain ⟨code, reference, entry, -⟩ := methodHandle_eq_ok.mp found
  exact grows.retains.methodHandle entry (grows _ _ entry) found

theorem Extends.invokeDynamic {index : UInt16} {site : UInt16 × String × String}
    (found : before.invokeDynamic index = .ok site) : after.invokeDynamic index = .ok site := by
  obtain ⟨signature, entry, signed⟩ := invokeDynamic_eq_ok.mp found
  exact invokeDynamic_eq_ok.mpr ⟨signature, grows _ _ entry, grows.retains.nameAndType signed⟩

theorem Extends.loadable {index : UInt16} {value : Loadable}
    (found : before.loadable index = .ok value) : after.loadable index = .ok value := by
  obtain ⟨constant, entry, -⟩ := bind_eq_ok.mp found
  have entry := entry_eq_ok.mp entry
  exact grows.retains.loadable entry (grows _ _ entry) found

end Extends

end Pool

end Downlevel
