/-
# Downlevel.Proofs.Code.Layout — where a layout sends each offset

The offsets that a jump may name are the stops of a list of instructions: where each of
them stands, and the end of the code. A layout sends the stops, in their order, to the
landings: the positions reached by adding up the sizes of the instructions before
(`layOut_find?`). It is defined nowhere else, and since every instruction takes at least a
byte, it keeps the order (`landings_ordered`, `lt_iff_of_mem_zip`).

When dynamic calls are replaced by static ones nothing moves towards the end. A switch may
take more padding at its new place than it had, but never ends later than it did, because
padding leads to the next multiple of four (`landings_le`).
-/
import Downlevel.Code.Layout
import Downlevel.Proofs.Code.Tiling

namespace Downlevel

set_option autoImplicit false

/-! ## Replacing dynamic calls -/

/-- The instruction is kept, or is a dynamic call that became a static one. -/
inductive Placed.Replaced : Placed → Placed → Prop where
  | kept (p : Placed) : Replaced p p
  | call (offset : Nat) (site index : UInt16) :
      Replaced ⟨offset, .dynamicCall site⟩ ⟨offset, .call Opcode.invokeStatic index⟩

theorem Placed.Replaced.offset_eq {p q : Placed} (replaced : Replaced p q) :
    q.offset = p.offset := by
  cases replaced <;> rfl

/-- An instruction that some code string can hold. -/
def Instruction.Encodable (instruction : Instruction) : Prop :=
  ∃ offset bytes, instruction.Encoded offset bytes

theorem Instruction.encodable_static (index : UInt16) :
    (Instruction.call Opcode.invokeStatic index).Encodable :=
  ⟨0, Opcode.invokeStatic :: be16 index, .call (by decide)⟩

theorem Tiles.encodable {offset : Nat} {bytes : Bytes} {code : List Placed}
    (tiles : Tiles offset bytes code) : ∀ p ∈ code, p.instruction.Encodable := by
  induction tiles with
  | nil offset => exact fun p member => absurd member List.not_mem_nil
  | @cons offset instruction piece rest code encoded _ ih =>
      intro p member
      rcases List.mem_cons.mp member with rfl | member
      · exact ⟨offset, piece, encoded⟩
      · exact ih p member

/-- Replacing calls keeps a list of instructions one that code strings can hold. -/
theorem encodable_of_replaced {before after : List Placed}
    (encodable : ∀ p ∈ before, p.instruction.Encodable)
    (replaced : List.Forall₂ Placed.Replaced before after) :
    ∀ q ∈ after, q.instruction.Encodable := by
  induction replaced with
  | nil => exact fun q member => absurd member List.not_mem_nil
  | @cons p q before after first _ ih =>
      intro r member
      rcases List.mem_cons.mp member with rfl | member
      · cases first with
        | kept => exact encodable p List.mem_cons_self
        | call => exact Instruction.encodable_static _
      · exact ih (fun p member => encodable p (List.mem_cons_of_mem _ member)) r member

/-! ## Stops and landings -/

/-- The offsets a jump may name: those of the instructions, and the end of the code. -/
def stops (code : List Placed) (length : Nat) : List Nat :=
  code.map Placed.offset ++ [length]

@[simp] theorem stops_nil (length : Nat) : stops [] length = [length] := rfl

@[simp] theorem stops_cons (p : Placed) (code : List Placed) (length : Nat) :
    stops (p :: code) length = p.offset :: stops code length := rfl

theorem stops_of_replaced {before after : List Placed} (length : Nat)
    (replaced : List.Forall₂ Placed.Replaced before after) :
    stops after length = stops before length := by
  induction replaced with
  | nil => rfl
  | cons first _ ih => rw [stops_cons, stops_cons, first.offset_eq, ih]

/-- The stops of a row of instructions lie behind its start, one behind the other. -/
theorem Tiles.stops_ordered {offset : Nat} {bytes : Bytes} {code : List Placed}
    (tiles : Tiles offset bytes code) :
    (∀ o ∈ stops code (offset + bytes.length), offset ≤ o) ∧
      (stops code (offset + bytes.length)).Pairwise (· < ·) := by
  induction tiles with
  | nil offset =>
      refine ⟨fun o member => ?_, List.pairwise_singleton _ _⟩
      rw [List.mem_singleton.mp member]
      exact Nat.le_add_right _ _
  | @cons offset instruction piece rest code encoded _ ih =>
      have sum : offset + (piece ++ rest).length = offset + piece.length + rest.length := by
        rw [List.length_append]
        omega
      have positive := encoded.length_pos
      obtain ⟨behind, ordered⟩ := ih
      rw [sum, stops_cons]
      constructor
      · intro o member
        rcases List.mem_cons.mp member with rfl | member
        · exact Nat.le_refl _
        · have later := behind o member
          omega
      · refine List.pairwise_cons.mpr ⟨fun o member => ?_, ordered⟩
        have later := behind o member
        show offset < o
        omega

theorem le_of_mem_stops {code : List Placed} {length o : Nat}
    (ordered : (stops code length).Pairwise (· < ·)) (stop : o ∈ stops code length) :
    o ≤ length := by
  rcases List.mem_append.mp stop with start | ending
  · exact Nat.le_of_lt ((List.pairwise_append.mp ordered).2.2 o start length List.mem_cons_self)
  · exact Nat.le_of_eq (List.mem_singleton.mp ending)

/-- Where the instructions and their end go when they are placed from `position` on. -/
def landings : List Placed → Nat → List Nat
  | [], position => [position]
  | p :: code, position => position :: landings code (position + p.instruction.size position)

/-- A row of instructions stands where placing it from its start puts it. -/
theorem Tiles.stops_eq_landings {offset : Nat} {bytes : Bytes} {code : List Placed}
    (tiles : Tiles offset bytes code) :
    stops code (offset + bytes.length) = landings code offset := by
  induction tiles with
  | nil offset => rfl
  | @cons offset instruction piece rest code encoded _ ih =>
      rw [stops_cons, landings, ← encoded.length, ← ih, List.length_append, Nat.add_assoc]

theorem Instruction.size_pos (instruction : Instruction) (position : Nat) :
    0 < instruction.size position := by
  cases instruction with
  | load opcode index =>
      simp only [Instruction.size]
      split <;> omega
  | branch opcode target =>
      simp only [Instruction.size]
      split <;> omega
  | _ =>
      simp only [Instruction.size]
      omega

/-- Landings come one behind the other, none before the start. -/
theorem landings_ordered (code : List Placed) (position : Nat) :
    (∀ m ∈ landings code position, position ≤ m) ∧ (landings code position).Pairwise (· < ·) := by
  induction code generalizing position with
  | nil => simp [landings]
  | cons p code ih =>
      obtain ⟨behind, ordered⟩ := ih (position + p.instruction.size position)
      have positive := p.instruction.size_pos position
      rw [landings]
      refine ⟨fun m member => ?_, List.pairwise_cons.mpr ⟨fun m member => ?_, ordered⟩⟩
      · rcases List.mem_cons.mp member with rfl | member
        · exact Nat.le_refl _
        · have later := behind m member
          omega
      · have later := behind m member
        omega

theorem length_landings (code : List Placed) (length position : Nat) :
    (landings code position).length = (stops code length).length := by
  induction code generalizing position with
  | nil => rfl
  | cons p code ih => simp [landings, ih]

/-- Items at the same places of two rising lists compare alike. -/
theorem lt_iff_of_mem_zip {xs ys : List Nat} (rising : xs.Pairwise (· < ·))
    (rising' : ys.Pairwise (· < ·)) {x x' y y' : Nat} (here : (x, y) ∈ xs.zip ys)
    (there : (x', y') ∈ xs.zip ys) : x < x' ↔ y < y' := by
  obtain ⟨i, pair⟩ := List.mem_iff_getElem?.mp here
  obtain ⟨j, pair'⟩ := List.mem_iff_getElem?.mp there
  obtain ⟨xHere, yHere⟩ := List.getElem?_zip_eq_some.mp pair
  obtain ⟨xThere, yThere⟩ := List.getElem?_zip_eq_some.mp pair'
  -- Both comparisons are that of the places.
  have places {zs : List Nat} (rising : zs.Pairwise (· < ·)) {z z' : Nat}
      (zHere : zs[i]? = some z) (zThere : zs[j]? = some z') : z < z' ↔ i < j := by
    obtain ⟨inside, rfl⟩ := List.getElem?_eq_some_iff.mp zHere
    obtain ⟨inside', rfl⟩ := List.getElem?_eq_some_iff.mp zThere
    have increases := List.pairwise_iff_getElem.mp rising
    rcases Nat.lt_trichotomy i j with less | same | more
    · simp [less, increases i j inside inside' less]
    · subst same
      simp
    · have reverse := increases j i inside' inside more
      omega
  rw [places rising xHere xThere, places rising' yHere yThere]

/-! ## The layout -/

/-- Placing adds the stops to the table and keeps what it held elsewhere. -/
theorem place_get? {code : List Placed} {length position : Nat} {table : Std.HashMap Nat Nat}
    {o m : Nat} (distinct : (stops code length).Nodup) :
    ((OffsetMap.place code position table).1.insert length
        (OffsetMap.place code position table).2)[o]? = some m ↔
      (o, m) ∈ (stops code length).zip (landings code position) ∨
        (o ∉ stops code length ∧ table[o]? = some m) := by
  induction code generalizing position table with
  | nil =>
      rw [OffsetMap.place, Std.HashMap.getElem?_insert]
      by_cases here : length = o
      · simp [here, landings, eq_comm]
      · simp [here, landings, Ne.symm here]
  | cons p code ih =>
      rw [stops_cons] at distinct
      obtain ⟨apart, distinct⟩ := List.nodup_cons.mp distinct
      rw [OffsetMap.place, ih distinct, Std.HashMap.getElem?_insert]
      by_cases here : p.offset = o
      · subst here
        have absent (m : Nat) : (p.offset, m) ∉ (stops code length).zip
            (landings code (position + p.instruction.size position)) :=
          fun member => apart (List.of_mem_zip member).1
        simp [absent, apart, landings, eq_comm]
      · simp [here, landings, Ne.symm here]

/-- The layout sends each stop to its landing, and is defined nowhere else. -/
theorem layOut_find? {code : List Placed} {length o m : Nat}
    (ordered : (stops code length).Pairwise (· < ·)) :
    (layOut code length).find? o = some m ↔
      (o, m) ∈ (stops code length).zip (landings code 0) := by
  have distinct : (stops code length).Nodup := ordered.imp fun less => Nat.ne_of_lt less
  show ((OffsetMap.place code 0 ∅).1.insert length (OffsetMap.place code 0 ∅).2)[o]? = some m ↔ _
  rw [place_get? distinct, Std.HashMap.getElem?_empty]
  constructor
  · rintro (member | ⟨_, none⟩)
    · exact member
    · cases none
  · exact Or.inl

/-! ## Nothing moves towards the end -/

/-- An instruction that starts earlier does not end later. -/
theorem Instruction.end_mono (instruction : Instruction) {position offset : Nat}
    (earlier : position ≤ offset) :
    position + instruction.size position ≤ offset + instruction.size offset := by
  cases instruction with
  | tableSwitch fallback low targets =>
      simp only [Instruction.size, switchPadding]
      omega
  | lookupSwitch fallback pairs =>
      simp only [Instruction.size, switchPadding]
      omega
  | plain opcode operands => exact Nat.add_le_add_right earlier _
  | load opcode index => exact Nat.add_le_add_right earlier _
  | branch opcode target => exact Nat.add_le_add_right earlier _
  | call opcode index => exact Nat.add_le_add_right earlier _
  | dynamicCall index => exact Nat.add_le_add_right earlier _

theorem Placed.Replaced.size_le {p q : Placed} (replaced : Replaced p q) (position : Nat) :
    q.instruction.size position ≤ p.instruction.size position := by
  cases replaced with
  | kept => exact Nat.le_refl _
  | call => exact (by decide : 3 ≤ 5)

theorem landings_le {offset position : Nat} {bytes : Bytes} {before after : List Placed}
    (tiles : Tiles offset bytes before)
    (replaced : List.Forall₂ Placed.Replaced before after) (earlier : position ≤ offset) :
    ∀ o m, (o, m) ∈ (stops after (offset + bytes.length)).zip (landings after position) →
      m ≤ o := by
  induction tiles generalizing after position with
  | nil offset =>
      cases replaced
      intro o m member
      obtain ⟨rfl, rfl⟩ := Prod.mk.inj (List.mem_singleton.mp member)
      exact earlier
  | @cons offset instruction piece rest code encoded _ ih =>
      cases replaced with
      | @cons _ q _ after first others =>
          have ends : position + q.instruction.size position ≤ offset + piece.length :=
            calc position + q.instruction.size position
                ≤ position + instruction.size position :=
                  Nat.add_le_add_left (first.size_le position) position
              _ ≤ offset + instruction.size offset := instruction.end_mono earlier
              _ = offset + piece.length := by rw [encoded.length]
          have sum : offset + (piece ++ rest).length = offset + piece.length + rest.length := by
            rw [List.length_append]
            omega
          intro o m member
          rw [sum, stops_cons, landings, List.zip_cons_cons] at member
          rcases List.mem_cons.mp member with same | member
          · obtain ⟨rfl, rfl⟩ := Prod.mk.inj same
            rw [first.offset_eq]
            exact earlier
          · exact ih others ends o m member

end Downlevel
