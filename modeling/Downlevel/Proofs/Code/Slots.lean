/-
# Downlevel.Proofs.Code.Slots — the layout as a table with a slot for each offset

Where code goes can be kept in a table of fixed size: a slot for each byte of the old code,
and one for its end. Filling a slot that the table does not have is an error. `Slots.layOut?`
fills the table as `layOut` fills its map, and the two agree (`layOut?_agrees`): one filled
slot is one inserted offset (`fill?_agrees`), and the offsets of decoded code, its end
included, all have a slot.

The rest puts together what a layout does to the stops of decoded code when any of its dynamic
calls are made static: it is defined at the stops only, keeps their order, moves none of them
towards the end, moves each by an even number of bytes, and moves no two of them apart by more
than two (`layOut_keeps_distances`).
-/
import Downlevel.Proofs.Code.Drift

namespace Downlevel

set_option autoImplicit false

/-- A table of new offsets by old ones; a slot is empty until it is filled. -/
abbrev Slots := List (Option Nat)

namespace Slots

/-- The empty table for code of `length` bytes. -/
def empty (length : Nat) : Slots :=
  List.replicate (length + 1) none

/-- Fills the slot of an offset, if the table has one. -/
def fill? (slots : Slots) (offset position : Nat) : Option Slots :=
  if offset < slots.length then some (slots.set offset (some position)) else none

/-- What the slot of an offset holds. -/
def find? (slots : Slots) (offset : Nat) : Option Nat :=
  slots[offset]?.join

/-- Places instructions from `position` on; also gives the position after the last. -/
def place? : List Placed → Nat → Slots → Option (Slots × Nat)
  | [], position, slots => some (slots, position)
  | p :: rest, position, slots =>
      (slots.fill? p.offset position).bind
        (place? rest (position + p.instruction.size position))

/-- The layout of a list of instructions whose code was `length` bytes long. -/
def layOut? (code : List Placed) (length : Nat) : Option Slots :=
  (place? code 0 (empty length)).bind fun placed => placed.1.fill? length placed.2

/-- The table has a slot for each of `size` offsets, and holds what the map does. -/
def Agrees (slots : Slots) (size : Nat) (table : Std.HashMap Nat Nat) : Prop :=
  slots.length = size ∧ ∀ offset, slots.find? offset = table[offset]?

theorem empty_agrees (length : Nat) : Agrees (empty length) (length + 1) ∅ := by
  refine ⟨List.length_replicate, fun offset => ?_⟩
  rw [Std.HashMap.getElem?_empty, find?, empty, List.getElem?_replicate]
  split <;> rfl

/-- An offset that has a slot is filled in as it is inserted. -/
theorem fill?_agrees {slots : Slots} {size offset : Nat} {table : Std.HashMap Nat Nat}
    (agrees : Agrees slots size table) (inside : offset < size) (position : Nat) :
    ∃ filled, slots.fill? offset position = some filled ∧
      Agrees filled size (table.insert offset position) := by
  obtain ⟨length, same⟩ := agrees
  rw [← length] at inside
  refine ⟨slots.set offset (some position), if_pos inside, ?_, fun other => ?_⟩
  · rw [List.length_set, length]
  · -- The slot of any other offset holds what it held.
    rw [Std.HashMap.getElem?_insert, ← same other, find?, List.getElem?_set]
    by_cases here : offset = other
    · simp [here, here ▸ inside]
    · simp [here, find?]

/-- Instructions that all have a slot are placed alike. -/
theorem place?_agrees {code : List Placed} {slots : Slots} {size : Nat}
    {table : Std.HashMap Nat Nat} (agrees : Agrees slots size table)
    (inside : ∀ p ∈ code, p.offset < size) (position : Nat) :
    ∃ filled, place? code position slots =
        some (filled, (OffsetMap.place code position table).2) ∧
      Agrees filled size (OffsetMap.place code position table).1 := by
  induction code generalizing slots position table with
  | nil => exact ⟨slots, rfl, agrees⟩
  | cons p code ih =>
      obtain ⟨next, filled, agreesNext⟩ :=
        fill?_agrees agrees (inside p List.mem_cons_self) position
      rw [place?, filled, OffsetMap.place]
      exact ih agreesNext (fun q held => inside q (List.mem_cons_of_mem p held)) _

/-- If no instruction starts behind the end of the code, no offset is without a slot, and the
table holds what the map does. -/
theorem layOut?_agrees {code : List Placed} {length : Nat}
    (inside : ∀ p ∈ code, p.offset ≤ length) :
    ∃ slots, layOut? code length = some slots ∧
      ∀ offset, slots.find? offset = (layOut code length).find? offset := by
  obtain ⟨placed, places, agrees⟩ := place?_agrees (empty_agrees length)
    (fun p held => Nat.lt_succ_of_le (inside p held)) 0
  obtain ⟨slots, filled, -, same⟩ := fill?_agrees agrees (Nat.lt_succ_self length)
    (OffsetMap.place code 0 ∅).2
  refine ⟨slots, ?_, same⟩
  rw [layOut?, places]
  exact filled

end Slots

/-! ## The layout of decoded code -/

section Layout

variable {code : Bytes} {before after : List Placed} (decoded : decode code = .ok before)
  (replaced : List.Forall₂ Placed.Replaced before after)
include decoded replaced

/-- Every offset that the layout of decoded code records has a slot. -/
theorem exists_slots_layOut :
    ∃ slots, Slots.layOut? after code.length = some slots ∧
      ∀ offset, slots.find? offset = (layOut after code.length).find? offset := by
  refine Slots.layOut?_agrees fun q held => ?_
  have carries := carries_layOut decoded replaced
  have stop : q.offset ∈ stops before code.length := by
    rw [← stops_of_replaced code.length replaced]
    exact List.mem_append_left _ (List.mem_map_of_mem held)
  obtain ⟨moved, sends⟩ := (carries.defined q.offset).mpr stop
  exact carries.within q.offset moved sends

/-- Assembled code ends where the layout sends the end of the old code. -/
theorem length_of_assemble {bytes : Bytes} {map : OffsetMap} {stop : Nat}
    (assembled : assemble after code.length = .ok (bytes, map))
    (sends : (layOut after code.length).Sends code.length stop) : bytes.length = stop := by
  have ending := (tiles_of_assemble decoded replaced assembled).1
  rw [(assemble_eq_ok.mp assembled).1] at ending
  exact Option.some.inj (ending.symm.trans sends)

/-- What the layout of decoded code does to the offsets of its instructions and to its end, when
any of its dynamic calls are made static. It is defined there and nowhere else. It moves none of
them towards the end, and each by an even number of bytes. Of two of them, the first stays
the first; they move apart by at most two bytes, and not at all if no switch starts from the
first on and before the second. The end of the code goes where the assembled code ends, which is
never longer than the old. A table with a slot for each byte of the old code and one for its end
takes all of it. -/
theorem layOut_keeps_distances :
    (∀ o, (∃ m, (layOut after code.length).find o = .ok m) ↔
      (∃ p ∈ before, p.offset = o) ∨ o = code.length) ∧
    (∀ o m, (layOut after code.length).find o = .ok m → m ≤ o ∧ (o - m) % 2 = 0) ∧
    (∀ o m o' m', (layOut after code.length).find o = .ok m →
      (layOut after code.length).find o' = .ok m' → o < o' →
      m < m' ∧ m' - m ≤ o' - o + 2 ∧
        ((∀ p ∈ before, o ≤ p.offset → p.offset < o' → ¬ p.instruction.IsSwitch) →
          m' - m ≤ o' - o)) ∧
    (∃ stop ≤ code.length, (layOut after code.length).find code.length = .ok stop ∧
      ∀ bytes map, assemble after code.length = .ok (bytes, map) →
        map = layOut after code.length ∧ bytes.length = stop) ∧
    ∃ slots, Slots.layOut? after code.length = some slots ∧
      ∀ o, slots.find? o = (layOut after code.length).find? o := by
  have carries := carries_layOut decoded replaced
  simp only [OffsetMap.find_eq_ok]
  refine ⟨fun o => ?_, fun o m sends => ?_, fun o m o' m' sends sends' less => ?_, ?_,
    exists_slots_layOut decoded replaced⟩
  · rw [carries.defined]
    simp [stops]
  · exact ⟨carries.shrinks o m sends, even_drift_layOut decoded replaced sends⟩
  · refine ⟨(carries.ordered sends sends').mp less, ?_⟩
    exact stretch_layOut decoded replaced sends sends' (Nat.le_of_lt less)
  · obtain ⟨stop, sends⟩ := (carries.defined code.length).mpr
      (List.mem_append_right _ List.mem_cons_self)
    refine ⟨stop, carries.shrinks _ _ sends, sends, fun bytes map assembled => ?_⟩
    exact ⟨(assemble_eq_ok.mp assembled).1, length_of_assemble decoded replaced assembled sends⟩

end Layout

/-- A dynamic call in front of a switch without padding. The switch follows the shorter call two
bytes towards the start and takes two bytes of padding there, so that it ends where it did. -/
theorem layOut_keeps_distances_padded :
    let code : Bytes := [0xBA, 0, 1, 0, 0, 0x00, 0x00, 0xAB, 0, 0, 0, 9, 0, 0, 0, 0, 0xB1]
    let others : List Placed := [⟨5, .plain 0x00 []⟩, ⟨6, .plain 0x00 []⟩, ⟨7, .lookupSwitch 16 []⟩,
      ⟨16, .plain 0xB1 []⟩]
    let after : List Placed := ⟨0, .call Opcode.invokeStatic 9⟩ :: others
    decode code = .ok (⟨0, .dynamicCall 1⟩ :: others) ∧
      List.Forall₂ Placed.Replaced (⟨0, .dynamicCall 1⟩ :: others) after ∧
      (layOut after code.length).find 7 = .ok 5 ∧ (layOut after code.length).find 16 = .ok 16 ∧
      (¬ ∃ m, (layOut after code.length).find 8 = .ok m) ∧
      16 - 5 ≤ 16 - 7 + 2 ∧
      (∃ stop ≤ 17, (layOut after code.length).find 17 = .ok stop) ∧
      ∃ slots, Slots.layOut? after code.length = some slots ∧ slots.find? 7 = some 5 := by
  intro code others after
  have decoded : decode code = .ok (⟨0, .dynamicCall 1⟩ :: others) := by decide +kernel
  have replaced : List.Forall₂ Placed.Replaced (⟨0, .dynamicCall 1⟩ :: others) after :=
    .cons (.call 0 1 9) (List.forall₂_same.mpr fun p _ => .kept p)
  have lands := (sends_layOut decoded replaced).1
  have switch : (layOut after code.length).find 7 = .ok 5 :=
    OffsetMap.find_eq_ok.mpr ((lands 7 5).mpr (by decide))
  have behind : (layOut after code.length).find 16 = .ok 16 :=
    OffsetMap.find_eq_ok.mpr ((lands 16 16).mpr (by decide))
  obtain ⟨defined, -, apart, ⟨stop, short, ending, -⟩, slots, filled, same⟩ :=
    layOut_keeps_distances decoded replaced
  refine ⟨decoded, replaced, switch, behind, fun found => ?_,
    (apart 7 5 16 16 switch behind (by decide)).2.1, ⟨stop, short, ending⟩, slots, filled, ?_⟩
  · exact absurd ((defined 8).mp found) (by decide)
  · rw [same 7]
    exact OffsetMap.find_eq_ok.mp switch

end Downlevel
