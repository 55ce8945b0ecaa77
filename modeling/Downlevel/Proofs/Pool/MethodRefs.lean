/-
# Downlevel.Proofs.Pool.MethodRefs — finding or adding a method reference

`intern` hands out the first slot that holds a constant, and appends the constant if there is
none. What it would do if a pool could have any number of slots is a plain computation
(`hold`). The two part only where the pool is full. `Interns` says so of an edit that is put
together of such steps, and everything else that holds however the edit ends:

* what was there stays, and what is appended is within the limits of the format (`Appended`);
* a text that is refused is too long, and an edit that ran out of slots would have needed more
  than there are;
* an edit that succeeded finds everything when it is repeated, in any pool that goes on from
  the one it left.

An index that was handed out for a method leads back to its owner, name, descriptor and kind
(`memberRef_of_internMethodRef`).
-/
import Downlevel.Proofs.Pool.Intern

namespace Downlevel.Pool

set_option autoImplicit false

open Sequencing

/-! ## Pools without a limit -/

/-- The index of the constant, once the pool has it. -/
def place (pool : Pool) (constant : Constant) : UInt16 :=
  (pool.find? constant).getD (UInt16.ofNat (pool.slots.size + 1))

/-- The pool with the constant, however many slots that takes. -/
def holding (pool : Pool) (constant : Constant) : Pool :=
  if (pool.find? constant).isSome then pool else ⟨pool.slots.push (some constant)⟩

def hold (constant : Constant) : StateM Pool UInt16 :=
  fun pool => (pool.place constant, pool.holding constant)

def holdText (text : String) : StateM Pool UInt16 :=
  hold (.utf8 (Modified.encode text))

def holdClass (name : String) : StateM Pool UInt16 := do
  hold (.classRef (← holdText name))

def holdNameAndType (name descriptor : String) : StateM Pool UInt16 := do
  let nameIndex ← holdText name
  let descriptorIndex ← holdText descriptor
  hold (.nameAndType nameIndex descriptorIndex)

/-- The constant of a method of a class or of an interface. -/
def methodConstant (ofInterface : Bool) (owner signature : UInt16) : Constant :=
  if ofInterface then .interfaceMethodRef owner signature else .methodRef owner signature

def holdMethodRef (owner name descriptor : String) (ofInterface : Bool) : StateM Pool UInt16 := do
  let ownerIndex ← holdClass owner
  let signature ← holdNameAndType name descriptor
  hold (methodConstant ofInterface ownerIndex signature)

/-- How many of the constants that make up a method reference the pool does not have. -/
def missing (pool : Pool) (owner name descriptor : String) (ofInterface : Bool) : Nat :=
  ((holdMethodRef owner name descriptor ofInterface).run pool).2.slots.size - pool.slots.size

theorem find?_of_kept {before after : Pool} {constant : Constant} {index : UInt16}
    (kept : before.slots.toList <+: after.slots.toList)
    (found : before.find? constant = some index) : after.find? constant = some index := by
  obtain ⟨n, first, rfl⟩ := Option.map_eq_some_iff.mp found
  refine Option.map_eq_some_iff.mpr ⟨n, ?_, rfl⟩
  obtain ⟨⟨slots⟩⟩ := before
  obtain ⟨⟨slots'⟩⟩ := after
  rw [List.findIdx?_toArray] at first ⊢
  exact kept.findIdx?_eq_some first

theorem find?_holding (pool : Pool) (constant : Constant) :
    (pool.holding constant).find? constant = some (pool.place constant) := by
  unfold holding place
  cases found : pool.find? constant with
  | some index => exact found
  | none =>
      have absent : pool.slots.findIdx? (fun slot => slot == some constant) = none :=
        Option.map_eq_none_iff.mp found
      simp [find?, Array.findIdx?_push, absent]

theorem prefix_holding (pool : Pool) (constant : Constant) :
    pool.slots.toList <+: (pool.holding constant).slots.toList := by
  unfold holding
  split
  · exact List.prefix_rfl
  · rw [Array.toList_push]
    exact List.prefix_append _ _

/-- Interning goes on as without a limit, unless that takes a slot too many. -/
theorem run_intern {pool : Pool} (bounded : pool.slots.size ≤ capacity) (constant : Constant) :
    (intern constant).run pool =
      if (pool.holding constant).slots.size ≤ capacity then
        (.ok (pool.place constant), pool.holding constant)
      else (.error .full, pool) := by
  cases found : pool.find? constant with
  | some index =>
      rw [intern_eq_ok.mpr (.inl ⟨found, rfl⟩)]
      simp [holding, place, found, bounded]
  | none =>
      have ran : (intern constant).run pool = (append constant).run pool := by
        simp only [intern, run_bind, run_get, found]
      have larger : (pool.holding constant).slots.size = pool.slots.size + 1 := by
        simp [holding, found]
      rw [ran, larger]
      by_cases room : pool.slots.size < capacity
      · rw [if_pos (by omega), append_eq_ok.mpr ⟨room, rfl, rfl⟩]
        simp [holding, place, found]
      · rw [if_neg (by omega)]
        show (if capacity ≤ pool.slots.size then _ else _ : Edit UInt16).run pool = _
        rw [if_pos (by omega)]
        rfl

/-! ## However an edit ends -/

/-- Constants within the limits of the format, at most `most` of them, were appended to a pool,
and it is still within its capacity. -/
structure Appended (most : Nat) (before after : Pool) : Prop where
  added : ∃ added : List Constant, added.length ≤ most ∧
    (∀ constant ∈ added, constant.Fits ∧ constant.isWide = false) ∧
    after.slots.toList = before.slots.toList ++ added.map some
  bounded : after.slots.size ≤ capacity

namespace Appended

variable {most most' : Nat} {before middle after : Pool}

theorem refl (bounded : before.slots.size ≤ capacity) : Appended most before before :=
  ⟨⟨[], Nat.zero_le most, fun _ held => absurd held List.not_mem_nil, (List.append_nil _).symm⟩,
    bounded⟩

theorem mono (appended : Appended most before after) (more : most ≤ most') :
    Appended most' before after := by
  obtain ⟨⟨added, few, fit, slots⟩, bounded⟩ := appended
  exact ⟨⟨added, Nat.le_trans few more, fit, slots⟩, bounded⟩

theorem trans (first : Appended most before middle) (second : Appended most' middle after) :
    Appended (most + most') before after := by
  obtain ⟨⟨added, few, fit, slots⟩, -⟩ := first
  obtain ⟨⟨added', few', fit', slots'⟩, bounded⟩ := second
  refine ⟨⟨added ++ added', ?_, fun constant held => ?_, ?_⟩, bounded⟩
  · rw [List.length_append]
    exact Nat.add_le_add few few'
  · rcases List.mem_append.mp held with held | held
    · exact fit constant held
    · exact fit' constant held
  · rw [slots', slots, List.map_append, List.append_assoc]

theorem isPrefix (appended : Appended most before after) :
    before.slots.toList <+: after.slots.toList := by
  obtain ⟨⟨added, -, -, slots⟩, -⟩ := appended
  exact ⟨added.map some, slots.symm⟩

theorem retains (appended : Appended most before after) : Retains before after :=
  (extends_of_kept appended.isPrefix).retains

theorem fits (appended : Appended most before after) (fits : before.Fits) : after.Fits := by
  obtain ⟨⟨added, -, fit, slots⟩, bounded⟩ := appended
  have shaped : Shaped (added.map some) := by
    clear slots
    induction added with
    | nil => exact .nil
    | cons constant added ih =>
        obtain ⟨constantFits, narrow⟩ := fit constant List.mem_cons_self
        exact .narrow constantFits narrow
          (ih fun other held => fit other (List.mem_cons_of_mem constant held))
  refine ⟨?_, bounded⟩
  rw [slots]
  exact fits.shaped.append shaped

end Appended

/-- What becomes of a pool in an edit that appends at most `most` constants, the `texts` among
them. `whole` is what the edit does where there is no limit. -/
structure Interns {α : Type} (most : Nat) (texts : List String) (whole : StateM Pool α)
    (e : Edit α) : Prop where
  appended : ∀ {pool : Pool}, pool.slots.size ≤ capacity → Appended most pool (e.run pool).2
  done : ∀ {pool after : Pool} {a : α}, pool.slots.size ≤ capacity →
    e.run pool = (.ok a, after) → whole.run pool = (a, after)
  full : ∀ {pool after : Pool}, pool.slots.size ≤ capacity →
    e.run pool = (.error .full, after) → capacity < (whole.run pool).2.slots.size
  tooLong : ∀ {pool after : Pool} {length : Nat}, pool.slots.size ≤ capacity →
    e.run pool = (.error (.tooLong length), after) →
      65535 < length ∧ ∃ text ∈ texts, (Modified.encode text).length = length
  grows : ∀ pool : Pool, pool.slots.size ≤ (whole.run pool).2.slots.size
  again : ∀ {pool after later : Pool} {a : α}, pool.slots.size ≤ capacity →
    e.run pool = (.ok a, after) → later.slots.size ≤ capacity →
    after.slots.toList <+: later.slots.toList → e.run later = (.ok a, later)

section Interns

variable {α β : Type} {most most' : Nat} {texts texts' : List String}

theorem Interns.appended_of_ok {whole : StateM Pool α} {e : Edit α}
    (interns : Interns most texts whole e) {pool after : Pool} {a : α}
    (bounded : pool.slots.size ≤ capacity) (ran : e.run pool = (.ok a, after)) :
    Appended most pool after := by
  have appended := interns.appended bounded
  rwa [ran] at appended

theorem Interns.bind {whole : StateM Pool α} {whole' : α → StateM Pool β} {e : Edit α}
    {next : α → Edit β} (first : Interns most texts whole e)
    (others : ∀ a, Interns most' texts' (whole' a) (next a)) :
    Interns (most + most') (texts ++ texts') (whole >>= whole') (e >>= next) where
  appended := by
    intro pool bounded
    have appended := first.appended bounded
    rw [run_bind]
    generalize e.run pool = ran at appended
    obtain ⟨error | a, middle⟩ := ran
    · exact appended.mono (Nat.le_add_right most most')
    · exact appended.trans ((others a).appended appended.bounded)
  done := by
    intro pool after b bounded ran
    obtain ⟨a, middle, ranFirst, ranNext⟩ := run_bind_eq_ok.mp ran
    show (whole' (whole.run pool).1).run (whole.run pool).2 = _
    rw [first.done bounded ranFirst]
    exact (others a).done (first.appended_of_ok bounded ranFirst).bounded ranNext
  full := by
    intro pool after bounded ran
    show capacity < ((whole' (whole.run pool).1).run (whole.run pool).2).2.slots.size
    rcases run_bind_eq_error.mp ran with ranFirst | ⟨a, middle, ranFirst, ranNext⟩
    · exact Nat.lt_of_lt_of_le (first.full bounded ranFirst) ((others _).grows _)
    · rw [first.done bounded ranFirst]
      exact (others a).full (first.appended_of_ok bounded ranFirst).bounded ranNext
  tooLong := by
    intro pool after length bounded ran
    rcases run_bind_eq_error.mp ran with ranFirst | ⟨a, middle, ranFirst, ranNext⟩
    · obtain ⟨long, text, held, coded⟩ := first.tooLong bounded ranFirst
      exact ⟨long, text, List.mem_append_left texts' held, coded⟩
    · have middleBounded := (first.appended_of_ok bounded ranFirst).bounded
      obtain ⟨long, text, held, coded⟩ := (others a).tooLong middleBounded ranNext
      exact ⟨long, text, List.mem_append_right texts held, coded⟩
  grows := fun pool => Nat.le_trans (first.grows pool) ((others _).grows _)
  again := by
    intro pool after later b bounded ran laterBounded kept
    obtain ⟨a, middle, ranFirst, ranNext⟩ := run_bind_eq_ok.mp ran
    have middleBounded := (first.appended_of_ok bounded ranFirst).bounded
    have keptFirst := ((others a).appended_of_ok middleBounded ranNext).isPrefix.trans kept
    refine run_bind_eq_ok.mpr ⟨a, later, ?_, ?_⟩
    · exact first.again bounded ranFirst laterBounded keptFirst
    · exact (others a).again middleBounded ranNext laterBounded kept

theorem interns_intern (constant : Constant) (fits : constant.Fits)
    (narrow : constant.isWide = false) : Interns 1 [] (hold constant) (intern constant) where
  appended := by
    intro pool bounded
    rw [run_intern bounded]
    by_cases room : (pool.holding constant).slots.size ≤ capacity
    · rw [if_pos room]
      refine ⟨?_, room⟩
      unfold holding
      split
      · exact (Appended.refl bounded).added
      · refine ⟨[constant], Nat.le_refl 1, fun other held => ?_, Array.toList_push⟩
        rw [List.mem_singleton.mp held]
        exact ⟨fits, narrow⟩
    · rw [if_neg room]
      exact .refl bounded
  done := by
    intro pool after index bounded ran
    rw [run_intern bounded] at ran
    split at ran
    · cases ran
      rfl
    · cases ran
  full := by
    intro pool after bounded ran
    rw [run_intern bounded] at ran
    split at ran
    · cases ran
    · rename_i noRoom
      exact Nat.lt_of_not_le noRoom
  tooLong := by
    intro pool after length bounded ran
    rw [run_intern bounded] at ran
    split at ran <;> cases ran
  grows := fun pool => (prefix_holding pool constant).length_le
  again := by
    intro pool after later index bounded ran laterBounded kept
    rw [run_intern bounded] at ran
    split at ran
    · cases ran
      have found := find?_of_kept kept (find?_holding pool constant)
      exact intern_eq_ok.mpr (.inl ⟨found, rfl⟩)
    · cases ran

/-- An edit that begins with a text that is too long does nothing else. -/
theorem interns_of_refused {whole : StateM Pool α} {e : Edit α} {text : String}
    (long : 65535 < (Modified.encode text).length)
    (refused : ∀ pool, e.run pool = (.error (.tooLong (Modified.encode text).length), pool))
    (grows : ∀ pool : Pool, pool.slots.size ≤ (whole.run pool).2.slots.size) :
    Interns most [text] whole e where
  appended := by
    intro pool bounded
    rw [refused]
    exact .refl bounded
  done := by
    intro pool after a bounded ran
    rw [refused] at ran
    cases ran
  full := by
    intro pool after bounded ran
    rw [refused] at ran
    cases ran
  tooLong := by
    intro pool after length bounded ran
    rw [refused] at ran
    cases ran
    exact ⟨long, text, List.mem_singleton_self text, rfl⟩
  grows := grows
  again := by
    intro pool after later a bounded ran
    rw [refused] at ran
    cases ran

theorem interns_internText (text : String) :
    Interns 1 [text] (holdText text) (internText text) := by
  by_cases long : 65535 < (Modified.encode text).length
  · refine interns_of_refused long (fun pool => ?_) fun pool => (prefix_holding pool _).length_le
    unfold internText
    simp only [if_pos long]
    rfl
  · have textFits : (Constant.utf8 (Modified.encode text)).Fits := by
      show (Modified.encode text).length < 65536
      omega
    have interns := interns_intern _ textFits rfl
    unfold internText
    simp only [if_neg long]
    exact { interns with
      tooLong := by
        intro pool after length bounded ran
        obtain ⟨-, text', impossible, -⟩ := interns.tooLong bounded ran
        exact absurd impossible List.not_mem_nil }

theorem interns_internClass (name : String) :
    Interns 2 [name] (holdClass name) (internClass name) :=
  (interns_internText name).bind fun text => interns_intern (.classRef text) trivial rfl

theorem interns_internNameAndType (name descriptor : String) :
    Interns 3 [name, descriptor] (holdNameAndType name descriptor)
      (internNameAndType name descriptor) :=
  (interns_internText name).bind fun _ =>
    (interns_internText descriptor).bind fun _ => interns_intern (.nameAndType _ _) trivial rfl

theorem internMethodRef_eq (owner name descriptor : String) (ofInterface : Bool) :
    internMethodRef owner name descriptor ofInterface = (do
      let ownerIndex ← internClass owner
      let signature ← internNameAndType name descriptor
      intern (methodConstant ofInterface ownerIndex signature)) := by
  cases ofInterface
  · rfl
  · rfl

theorem interns_internMethodRef (owner name descriptor : String) (ofInterface : Bool) :
    Interns 6 [owner, name, descriptor] (holdMethodRef owner name descriptor ofInterface)
      (internMethodRef owner name descriptor ofInterface) := by
  have reference (ownerIndex signature : UInt16) :
      Interns 1 [] (hold (methodConstant ofInterface ownerIndex signature))
        (intern (methodConstant ofInterface ownerIndex signature)) := by
    cases ofInterface
    · exact interns_intern (.methodRef ownerIndex signature) trivial rfl
    · exact interns_intern (.interfaceMethodRef ownerIndex signature) trivial rfl
  rw [internMethodRef_eq]
  exact (interns_internClass owner).bind fun ownerIndex =>
    (interns_internNameAndType name descriptor).bind fun signature => reference ownerIndex signature

end Interns

/-! ## Looking up what was interned -/

section Lookups

variable {before after : Pool} {index : UInt16} (bounded : before.slots.size ≤ capacity)
include bounded

theorem entry?_of_intern {constant : Constant}
    (ran : (intern constant).run before = (.ok index, after)) :
    after.entry? index = some constant := by
  rw [run_intern bounded] at ran
  split at ran
  · rename_i room
    cases ran
    exact entry?_of_find? room (find?_holding before constant)
  · cases ran

theorem retains_of_intern {constant : Constant}
    (ran : (intern constant).run before = (.ok index, after)) : Retains before after := by
  rw [run_intern bounded] at ran
  split at ran
  · cases ran
    exact (extends_of_kept (prefix_holding before constant)).retains
  · cases ran

theorem utf8_of_internText {text : String}
    (ran : (internText text).run before = (.ok index, after)) : after.utf8 index = .ok text := by
  obtain ⟨-, ranText⟩ := internText_eq_ok.mp ran
  exact utf8_eq_ok.mpr ⟨_, entry?_of_intern bounded ranText, Modified.decode?_encode text⟩

theorem className_of_internClass {name : String}
    (ran : (internClass name).run before = (.ok index, after)) :
    after.className index = .ok name := by
  obtain ⟨text, middle, ranText, ranClass⟩ := run_bind_eq_ok.mp ran
  have middleBounded := ((interns_internText name).appended_of_ok bounded ranText).bounded
  have named := (retains_of_intern middleBounded ranClass).utf8 (utf8_of_internText bounded ranText)
  exact className_eq_ok.mpr ⟨text, entry?_of_intern middleBounded ranClass, named⟩

theorem nameAndType_of_internNameAndType {name descriptor : String}
    (ran : (internNameAndType name descriptor).run before = (.ok index, after)) :
    after.nameAndType index = .ok (name, descriptor) := by
  obtain ⟨nameIndex, middle, ranName, next⟩ := run_bind_eq_ok.mp ran
  obtain ⟨descriptorIndex, middle', ranDescriptor, ranPair⟩ := run_bind_eq_ok.mp next
  have middleBounded := ((interns_internText name).appended_of_ok bounded ranName).bounded
  have described := (interns_internText descriptor).appended_of_ok middleBounded ranDescriptor
  have paired := retains_of_intern described.bounded ranPair
  refine nameAndType_eq_ok.mpr ⟨_, _, entry?_of_intern described.bounded ranPair, ?_, ?_⟩
  · exact (described.retains.trans paired).utf8 (utf8_of_internText bounded ranName)
  · exact paired.utf8 (utf8_of_internText middleBounded ranDescriptor)

/-- The index of an interned method reference leads back to the method's owner, name and
descriptor, and to the kind of its owner. -/
theorem memberRef_of_internMethodRef {owner name descriptor : String} {ofInterface : Bool}
    (ran : (internMethodRef owner name descriptor ofInterface).run before = (.ok index, after)) :
    after.memberRef index = .ok ⟨owner, name, descriptor, ofInterface⟩ := by
  rw [internMethodRef_eq] at ran
  obtain ⟨ownerIndex, middle, ranOwner, next⟩ := run_bind_eq_ok.mp ran
  obtain ⟨signature, middle', ranSignature, ranReference⟩ := run_bind_eq_ok.mp next
  have middleBounded := ((interns_internClass owner).appended_of_ok bounded ranOwner).bounded
  have signed :=
    (interns_internNameAndType name descriptor).appended_of_ok middleBounded ranSignature
  have kept := retains_of_intern signed.bounded ranReference
  have found : after.member ownerIndex signature ofInterface =
      .ok ⟨owner, name, descriptor, ofInterface⟩ := by
    refine member_eq_ok.mpr ⟨?_, ?_, rfl⟩
    · exact kept.nameAndType (nameAndType_of_internNameAndType middleBounded ranSignature)
    · exact (signed.retains.trans kept).className (className_of_internClass bounded ranOwner)
  have entry := entry_eq_ok.mpr (entry?_of_intern signed.bounded ranReference)
  refine bind_eq_ok.mpr ⟨_, entry, ?_⟩
  cases ofInterface
  · exact found
  · exact found

end Lookups

theorem edited_of_internMethodRef {owner name descriptor : String} {before after : Pool}
    {index : UInt16} (fits : before.Fits)
    (ran : (internMethodRef owner name descriptor false).run before = (.ok index, after)) :
    Edited before after := by
  have interns := interns_internMethodRef owner name descriptor false
  exact ⟨grown_of_internMethodRef ran, (interns.appended_of_ok fits.bounded ran).fits fits⟩

/-- Finding or adding a method reference. It comes with an index that leads back to the method,
appends what the pool does not have of it, and finds all of it when it is repeated. It fails on
a text that is too long, or for want of slots. In any case what was there stays. -/
theorem internMethodRef_finds_or_adds {before : Pool} (bounded : before.slots.size ≤ capacity)
    (owner name descriptor : String) (ofInterface : Bool) :
    (∀ index after,
      (internMethodRef owner name descriptor ofInterface).run before = (.ok index, after) →
      after.memberRef index = .ok ⟨owner, name, descriptor, ofInterface⟩ ∧
        Appended 6 before after ∧
        after.slots.size = before.slots.size + before.missing owner name descriptor ofInterface ∧
        (internMethodRef owner name descriptor ofInterface).run after = (.ok index, after)) ∧
    (∀ error after,
      (internMethodRef owner name descriptor ofInterface).run before = (.error error, after) →
      Appended 6 before after ∧
        ((∃ length, error = .tooLong length ∧ 65535 < length ∧
            ∃ text ∈ [owner, name, descriptor], (Modified.encode text).length = length) ∨
          (error = .full ∧ capacity - before.slots.size <
            before.missing owner name descriptor ofInterface))) := by
  have interns := interns_internMethodRef owner name descriptor ofInterface
  have grows := interns.grows before
  constructor
  · intro index after ran
    have appended := interns.appended_of_ok bounded ran
    refine ⟨memberRef_of_internMethodRef bounded ran, appended, ?_, ?_⟩
    · unfold missing
      rw [interns.done bounded ran] at grows ⊢
      exact (Nat.add_sub_of_le grows).symm
    · exact interns.again bounded ran appended.bounded List.prefix_rfl
  · intro error after ran
    have appended := interns.appended bounded
    rw [ran] at appended
    refine ⟨appended, ?_⟩
    cases error with
    | tooLong length => exact .inl ⟨length, rfl, interns.tooLong bounded ran⟩
    | full =>
        have short := interns.full bounded ran
        unfold missing
        exact .inr ⟨rfl, by omega⟩

/-- The first of two equal texts is not the one that the class there is named by, so the owner
is added with the rest, behind a pool with an empty slot and a text that is not text. In a pool
without a free slot there is no room for any of it. -/
theorem internMethodRef_finds_or_adds_scattered :
    let before : Pool := ⟨#[some (.utf8 [0xFF]), some (.long 7), none, some (.utf8 [65]),
      some (.utf8 [65]), some (.classRef 5)]⟩
    let packed : Pool := ⟨Array.replicate 65534 none⟩
    (∃ after, (internMethodRef "A" "run" "()V" true).run before = (.ok 11, after) ∧
      after.memberRef 11 = .ok ⟨"A", "run", "()V", true⟩ ∧ Appended 6 before after ∧
      after.slots.size = 6 + 5 ∧
      (internMethodRef "A" "run" "()V" true).run after = (.ok 11, after)) ∧
    (internMethodRef "A" "run" "()V" true).run packed = (.error .full, packed) ∧
    capacity - packed.slots.size < packed.missing "A" "run" "()V" true := by
  intro before packed
  have bounded : before.slots.size ≤ capacity := by decide
  have added : before.missing "A" "run" "()V" true = 5 := by decide +kernel
  have ran : (internMethodRef "A" "run" "()V" true).run before =
      (.ok 11, ⟨before.slots ++ #[some (.classRef 4), some (.utf8 [114, 117, 110]),
        some (.utf8 [40, 41, 86]), some (.nameAndType 8 9), some (.interfaceMethodRef 7 10)]⟩) :=
    Prod.ext (by decide +kernel) (by decide +kernel)
  obtain ⟨found, appended, larger, repeated⟩ :=
    (internMethodRef_finds_or_adds bounded "A" "run" "()V" true).1 _ _ ran
  rw [added] at larger
  have packedBounded : packed.slots.size ≤ capacity := by
    rw [Array.size_replicate]
    exact Nat.le_refl 65534
  have refused : (internMethodRef "A" "run" "()V" true).run packed = (.error .full, packed) := by
    have absent : packed.find? (.utf8 [65]) = none := by
      simp [packed, find?, Array.findIdx?_replicate]
    have noRoom : ¬ (packed.holding (.utf8 [65])).slots.size ≤ capacity := by
      simp [holding, absent, packed, capacity]
    have stuck : (internText "A").run packed = (.error .full, packed) := by
      show (intern (.utf8 [65])).run packed = _
      rw [run_intern packedBounded, if_neg noRoom]
    rw [internMethodRef_eq]
    exact run_bind_eq_error.mpr (.inl (run_bind_eq_error.mpr (.inl stuck)))
  refine ⟨⟨_, ran, found, appended, larger, repeated⟩, refused, ?_⟩
  rcases ((internMethodRef_finds_or_adds packedBounded "A" "run" "()V" true).2 _ _ refused).2 with
    ⟨_, impossible, -⟩ | ⟨-, short⟩
  · cases impossible
  · exact short

end Downlevel.Pool
