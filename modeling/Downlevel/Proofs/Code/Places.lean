/-
# Downlevel.Proofs.Code.Places — what a code string says at each offset

`Instruction.Stands code offset instruction` says where in a code string each part of an
instruction is found: the opcode at its offset, and every index, key and displacement as a
number at a distance from it. The operands of a switch start at the next multiple of four. An
instruction stands at an offset exactly if its format does (`Encoded.stands`, `Stands.encoded`).

`Instruction.Complete code offset length` says the same without reference to an instruction:
that the bytes from `offset` on start with a known opcode, that all of its operands are there,
and that they take `length` bytes. Whatever is complete stands for an instruction that is as
long as its size says, and nothing else does (`Complete.exists_stands`, `Stands.complete`).

So a code string can be decoded exactly if it can be cut into complete instructions whose
targets fit 32 bits, and what is decoded is what stands at the cuts (`decode_reads_places`). In
code of more than 2³¹ bytes, a target that is not negative may still not fit: `Remote` is such a
string (`decode_refuses_remote`).
-/
import Downlevel.Proofs.BigEndian
import Downlevel.Proofs.Code.Reassembly

namespace Downlevel

set_option autoImplicit false

open Bytes Sequencing

namespace Instruction

/-- The first multiple of four behind the opcode of a switch, where its operands start. -/
def operandsAt (offset : Nat) : Nat :=
  4 * (offset / 4 + 1)

theorem operandsAt_eq (offset : Nat) : operandsAt offset = offset + 1 + switchPadding offset := by
  unfold operandsAt switchPadding
  omega

/-! ## Instructions at their places -/

/-- The instruction stands in `code` at `offset`: its opcode does, and its operands are the
numbers found behind it. -/
inductive Stands (code : Bytes) (offset : Nat) : Instruction → Prop where
  | plain {opcode : UInt8} {operands : Bytes} (starts : code[offset]? = some opcode)
      (shape : Shape.ofOpcode? opcode = some (.plain operands.length))
      (follow : Holds code (offset + 1) operands) :
      Stands code offset (.plain opcode operands)
  | wide {opcode widened : UInt8} {operands : Bytes} (starts : code[offset]? = some opcode)
      (shape : Shape.ofOpcode? opcode = some .wide)
      (widens : Shape.wideOperands? widened = some (operands.length + 1))
      (follow : Holds code (offset + 1) (widened :: operands)) :
      Stands code offset (.plain opcode (widened :: operands))
  | load {opcode : UInt8} {index : UInt16} (starts : code[offset]? = some opcode)
      (shape : Shape.ofOpcode? opcode = some .load)
      (named : unsigned? code (offset + 1) 1 = some index.toNat) :
      Stands code offset (.load opcode index)
  | loadWide {opcode : UInt8} {index : UInt16} (starts : code[offset]? = some opcode)
      (shape : Shape.ofOpcode? opcode = some .loadWide)
      (named : unsigned? code (offset + 1) 2 = some index.toNat) :
      Stands code offset (.load opcode index)
  | branch {opcode : UInt8} {target : Nat} (starts : code[offset]? = some opcode)
      (shape : Shape.ofOpcode? opcode = some .branch)
      (reaches : signed? code (offset + 1) 2 = some ((target : Int) - offset)) :
      Stands code offset (.branch opcode target)
  | branchFar {opcode : UInt8} {target : Nat} (starts : code[offset]? = some opcode)
      (shape : Shape.ofOpcode? opcode = some .branchFar)
      (reaches : signed? code (offset + 1) 4 = some ((target : Int) - offset)) :
      Stands code offset (.branch opcode target)
  | tableSwitch {fallback : Nat} {low : Int32} {targets : List Nat}
      (starts : code[offset]? = some Opcode.tableSwitch) (nonempty : targets ≠ [])
      (reachesFallback : signed? code (operandsAt offset) 4 = some ((fallback : Int) - offset))
      (least : signed? code (operandsAt offset + 4) 4 = some low.toInt)
      (greatest : signed? code (operandsAt offset + 8) 4 = some (low.toInt + targets.length - 1))
      (reaches : ∀ (k target : Nat), targets[k]? = some target →
        signed? code (operandsAt offset + 12 + 4 * k) 4 = some ((target : Int) - offset)) :
      Stands code offset (.tableSwitch fallback low targets)
  | lookupSwitch {fallback : Nat} {pairs : List (Int32 × Nat)}
      (starts : code[offset]? = some Opcode.lookupSwitch)
      (reachesFallback : signed? code (operandsAt offset) 4 = some ((fallback : Int) - offset))
      (counted : signed? code (operandsAt offset + 4) 4 = some (pairs.length : Int))
      (reaches : ∀ (k : Nat) (pair : Int32 × Nat), pairs[k]? = some pair →
        signed? code (operandsAt offset + 8 + 8 * k) 4 = some pair.1.toInt ∧
        signed? code (operandsAt offset + 12 + 8 * k) 4 = some ((pair.2 : Int) - offset)) :
      Stands code offset (.lookupSwitch fallback pairs)
  | call {opcode : UInt8} {index : UInt16} (starts : code[offset]? = some opcode)
      (shape : Shape.ofOpcode? opcode = some .call)
      (named : unsigned? code (offset + 1) 2 = some index.toNat) :
      Stands code offset (.call opcode index)
  | dynamicCall {index : UInt16} (starts : code[offset]? = some Opcode.invokeDynamic)
      (named : unsigned? code (offset + 1) 2 = some index.toNat)
      (inside : offset + 1 + 4 ≤ code.length) :
      Stands code offset (.dynamicCall index)

section

variable {code : Bytes} {offset : Nat} {instruction : Instruction}

/-- The word that leads from `offset` to `target`. -/
def leading (offset target : Nat) : UInt32 :=
  (Int32.ofInt ((target : Int) - offset)).toUInt32

/-- A distance that is found in the code as a 32-bit number is the word that leads to the
target. -/
theorem holds_leading {start target : Nat}
    (found : signed? code start 4 = some ((target : Int) - offset)) :
    Holds code start (be32 (leading offset target)) ∧
      displacement32 (leading offset target) = (target : Int) - offset := by
  obtain ⟨w, holds, same⟩ := signed?_32_eq_some.mp found
  have word : leading offset target = w := by
    rw [leading, ← same, Int32.ofInt_toInt, UInt32.toUInt32_toInt32]
  rw [word]
  exact ⟨holds, same⟩

theorem signed?_of_reaches {start : Nat} {w : UInt32} {target : Nat}
    (holds : Holds code start (be32 w)) (reaches : Reaches offset (displacement32 w) target) :
    signed? code start 4 = some ((target : Int) - offset) := by
  refine signed?_32_eq_some.mpr ⟨w, holds, ?_⟩
  have ends := reaches.1
  unfold displacement32 at ends
  omega

/-- A switch stands at an offset if its operands stand at the next multiple of four; the bytes
between the opcode and the operands may be any. -/
theorem holds_switch {opcode : UInt8} {operands : Bytes} (nonempty : operands ≠ []) :
    (∃ padding : Bytes, padding.length = switchPadding offset ∧
        Holds code offset (opcode :: (padding ++ operands))) ↔
      code[offset]? = some opcode ∧ Holds code (operandsAt offset) operands := by
  constructor
  · rintro ⟨padding, padded, holds⟩
    obtain ⟨starts, follow⟩ := holds_cons.mp holds
    have behind := (holds_append.mp follow).2
    rw [padded, ← operandsAt_eq] at behind
    exact ⟨starts, behind⟩
  · rintro ⟨starts, behind⟩
    have room := behind.end_le nonempty
    rw [operandsAt_eq] at behind room
    obtain ⟨padding, padded, between⟩ := exists_holds (Nat.le_trans (Nat.le_add_right _ _) room)
    refine ⟨padding, padded, holds_cons.mpr ⟨starts, holds_append.mpr ⟨between, ?_⟩⟩⟩
    rwa [padded]

/-- The rows of a table switch, from the distances found in the code. -/
theorem holds_targets {start : Nat} {targets : List Nat}
    (reaches : ∀ (k target : Nat), targets[k]? = some target →
      signed? code (start + 4 * k) 4 = some ((target : Int) - offset)) :
    Holds code start ((targets.map (leading offset)).flatMap be32) := by
  refine (holds_flatMap length_be32).mpr fun k w found => ?_
  rw [List.getElem?_map, Option.map_eq_some_iff] at found
  obtain ⟨target, found, rfl⟩ := found
  exact (holds_leading (reaches k target found)).1

/-- The words of a row of a lookup switch. -/
def leadingRow (offset : Nat) (pair : Int32 × Nat) : UInt32 × UInt32 :=
  (pair.1.toUInt32, leading offset pair.2)

theorem length_row (word : UInt32 × UInt32) : (be32 word.1 ++ be32 word.2).length = 8 := rfl

/-- The rows of a lookup switch, from the keys and distances found in the code. -/
theorem holds_pairs {start : Nat} {pairs : List (Int32 × Nat)}
    (reaches : ∀ (k : Nat) (pair : Int32 × Nat), pairs[k]? = some pair →
      signed? code (start + 8 * k) 4 = some pair.1.toInt ∧
      signed? code (start + 4 + 8 * k) 4 = some ((pair.2 : Int) - offset)) :
    Holds code start
      ((pairs.map (leadingRow offset)).flatMap fun word => be32 word.1 ++ be32 word.2) := by
  refine (holds_flatMap length_row).mpr fun k word found => ?_
  rw [List.getElem?_map, Option.map_eq_some_iff] at found
  obtain ⟨pair, found, rfl⟩ := found
  obtain ⟨keyed, reached⟩ := reaches k pair found
  obtain ⟨key, holdsKey, sameKey⟩ := signed?_32_eq_some.mp keyed
  rw [leadingRow, ← Int32.toInt_inj.mp sameKey, UInt32.toUInt32_toInt32]
  refine holds_append.mpr ⟨holdsKey, ?_⟩
  rw [length_be32, Nat.add_right_comm]
  exact (holds_leading reached).1

/-- An instruction whose format stands in the code stands there. -/
theorem Encoded.stands {piece : Bytes} (encoded : Encoded offset instruction piece)
    (holds : Holds code offset piece) : Stands code offset instruction := by
  cases encoded with
  | plain shape =>
      obtain ⟨starts, follow⟩ := holds_cons.mp holds
      exact .plain starts shape follow
  | wide shape widens =>
      obtain ⟨starts, follow⟩ := holds_cons.mp holds
      exact .wide starts shape widens follow
  | @load opcode index shape =>
      obtain ⟨starts, follow⟩ := holds_cons.mp holds
      exact .load starts shape (unsigned?_8_eq_some.mpr ⟨index, follow, rfl⟩)
  | @loadWide opcode index shape =>
      obtain ⟨starts, follow⟩ := holds_cons.mp holds
      exact .loadWide starts shape (unsigned?_16_eq_some.mpr ⟨index, follow, rfl⟩)
  | @branch opcode w target shape reaches =>
      obtain ⟨starts, follow⟩ := holds_cons.mp holds
      refine .branch starts shape (signed?_16_eq_some.mpr ⟨w, follow, ?_⟩)
      have ends := reaches.1
      unfold displacement16 at ends
      omega
  | branchFar shape reaches =>
      obtain ⟨starts, follow⟩ := holds_cons.mp holds
      exact .branchFar starts shape (signed?_of_reaches follow reaches)
  | @tableSwitch padding w low high words fallback targets padded count ordered reachesFallback
      reaches =>
      obtain ⟨starts, operands⟩ := (holds_switch (by simp [be32])).mp ⟨padding, padded, holds⟩
      simp only [holds_append, length_be32, Nat.add_assoc, Nat.reduceAdd] at operands
      obtain ⟨first, least, greatest, rows⟩ := operands
      have counted := reaches.length_eq
      refine .tableSwitch starts ?_ (signed?_of_reaches first reachesFallback)
        (signed?_32_eq_some.mpr ⟨low, least, rfl⟩) (signed?_32_eq_some.mpr ⟨high, greatest, ?_⟩)
        fun k target found => ?_
      · -- The largest key is not below the smallest, so there is at least one row.
        intro none
        rw [none] at counted
        rw [counted] at count
        simp only [List.length_nil] at count
        omega
      · unfold displacement32 at count
        omega
      · obtain ⟨w, row, reached⟩ := round_at reaches.flip found
        have here := (holds_flatMap length_be32).mp rows k w row
        exact signed?_of_reaches here reached
  | @lookupSwitch padding w count words fallback pairs padded counted signed reachesFallback
      reaches =>
      obtain ⟨starts, operands⟩ := (holds_switch (by simp [be32])).mp ⟨padding, padded, holds⟩
      simp only [holds_append, length_be32, Nat.add_assoc, Nat.reduceAdd] at operands
      obtain ⟨first, number, rows⟩ := operands
      refine .lookupSwitch starts (signed?_of_reaches first reachesFallback)
        (signed?_32_eq_some.mpr ⟨count, number, ?_⟩) fun k pair found => ?_
      · rw [← reaches.length_eq, counted]
        exact toInt_eq_toNat_of_nonneg signed
      · obtain ⟨word, row, key, reached⟩ := round_at reaches.flip found
        have here := (holds_flatMap length_row).mp rows k word row
        obtain ⟨keyHere, targetHere⟩ := holds_append.mp here
        rw [key]
        refine ⟨signed?_32_eq_some.mpr ⟨word.1, keyHere, rfl⟩, ?_⟩
        rw [length_be32, Nat.add_right_comm] at targetHere
        exact signed?_of_reaches targetHere reached
  | @call opcode index shape =>
      obtain ⟨starts, follow⟩ := holds_cons.mp holds
      exact .call starts shape (unsigned?_16_eq_some.mpr ⟨index, follow, rfl⟩)
  | @dynamicCall index ignored =>
      have inside := holds.end_le (List.cons_ne_nil _ _)
      obtain ⟨starts, follow⟩ := holds_cons.mp holds
      exact .dynamicCall starts
        (unsigned?_16_eq_some.mpr ⟨index, (holds_append.mp follow).1, rfl⟩) inside

/-- An instruction that stands in the code has its format there, if its targets fit 32 bits. -/
theorem Stands.encoded (stands : Stands code offset instruction)
    (small : ∀ target ∈ instruction.targets, target < 4294967296) :
    ∃ piece, Holds code offset piece ∧ Encoded offset instruction piece := by
  have reach {d : Int} {target : Nat} (leads : d = (target : Int) - offset)
      (fits : target < 4294967296) : Reaches offset d target := ⟨by omega, fits⟩
  cases stands with
  | plain starts shape follow => exact ⟨_, holds_cons.mpr ⟨starts, follow⟩, .plain shape⟩
  | wide starts shape widens follow =>
      exact ⟨_, holds_cons.mpr ⟨starts, follow⟩, .wide shape widens⟩
  | @load opcode index starts shape named =>
      obtain ⟨b, holds, same⟩ := unsigned?_8_eq_some.mp named
      obtain rfl : b.toUInt16 = index := UInt16.toNat_inj.mp same
      exact ⟨_, holds_cons.mpr ⟨starts, holds⟩, .load shape⟩
  | loadWide starts shape named =>
      obtain ⟨w, holds, same⟩ := unsigned?_16_eq_some.mp named
      obtain rfl := UInt16.toNat_inj.mp same
      exact ⟨_, holds_cons.mpr ⟨starts, holds⟩, .loadWide shape⟩
  | branch starts shape reaches =>
      obtain ⟨w, holds, same⟩ := signed?_16_eq_some.mp reaches
      exact ⟨_, holds_cons.mpr ⟨starts, holds⟩,
        .branch shape (reach same (small _ List.mem_cons_self))⟩
  | branchFar starts shape reaches =>
      obtain ⟨w, holds, same⟩ := signed?_32_eq_some.mp reaches
      exact ⟨_, holds_cons.mpr ⟨starts, holds⟩,
        .branchFar shape (reach same (small _ List.mem_cons_self))⟩
  | @tableSwitch fallback low targets starts nonempty reachesFallback least greatest reaches =>
      obtain ⟨first, holdsFirst, leadsFirst⟩ := signed?_32_eq_some.mp reachesFallback
      obtain ⟨lowest, holdsLowest, sameLowest⟩ := signed?_32_eq_some.mp least
      obtain ⟨highest, holdsHighest, sameHighest⟩ := signed?_32_eq_some.mp greatest
      obtain rfl := Int32.toInt_inj.mp sameLowest
      have operands : Holds code (operandsAt offset) (be32 first ++ (be32 lowest ++
          (be32 highest ++ (targets.map (leading offset)).flatMap be32))) := by
        simp only [holds_append, length_be32, Nat.add_assoc, Nat.reduceAdd]
        exact ⟨holdsFirst, holdsLowest, holdsHighest, holds_targets reaches⟩
      obtain ⟨padding, padded, holds⟩ := (holds_switch (by simp [be32])).mpr ⟨starts, operands⟩
      have positive := List.length_pos_iff.mpr nonempty
      refine ⟨_, holds, .tableSwitch padded ?_ ?_
        (reach leadsFirst (small _ List.mem_cons_self)) ?_⟩
      · unfold displacement32
        rw [List.length_map]
        omega
      · unfold displacement32
        omega
      · rw [List.forall₂_map_left_iff, List.forall₂_same]
        intro target held
        obtain ⟨k, found⟩ := List.mem_iff_getElem?.mp held
        exact reach (holds_leading (reaches k target found)).2
          (small target (List.mem_cons_of_mem _ held))
  | @lookupSwitch fallback pairs starts reachesFallback counted reaches =>
      obtain ⟨first, holdsFirst, leadsFirst⟩ := signed?_32_eq_some.mp reachesFallback
      obtain ⟨count, holdsCount, sameCount⟩ := signed?_32_eq_some.mp counted
      have operands : Holds code (operandsAt offset) (be32 first ++ (be32 count ++
          (pairs.map (leadingRow offset)).flatMap fun word => be32 word.1 ++ be32 word.2)) := by
        simp only [holds_append, length_be32, Nat.add_assoc, Nat.reduceAdd]
        exact ⟨holdsFirst, holdsCount, holds_pairs reaches⟩
      obtain ⟨padding, padded, holds⟩ := (holds_switch (by simp [be32])).mpr ⟨starts, operands⟩
      have nonneg : 0 ≤ count.toInt32.toInt := by omega
      refine ⟨_, holds, .lookupSwitch padded ?_ nonneg
        (reach leadsFirst (small _ List.mem_cons_self)) ?_⟩
      · rw [toInt_eq_toNat_of_nonneg nonneg] at sameCount
        rw [List.length_map]
        omega
      · rw [List.forall₂_map_left_iff, List.forall₂_same]
        intro pair held
        obtain ⟨k, found⟩ := List.mem_iff_getElem?.mp held
        refine ⟨(Int32.toInt32_toUInt32 _).symm, ?_⟩
        exact reach (holds_leading (reaches k pair found).2).2
          (small pair.2 (List.mem_cons_of_mem _ (List.mem_map_of_mem held)))
  | call starts shape named =>
      obtain ⟨w, holds, same⟩ := unsigned?_16_eq_some.mp named
      obtain rfl := UInt16.toNat_inj.mp same
      exact ⟨_, holds_cons.mpr ⟨starts, holds⟩, .call shape⟩
  | dynamicCall starts named inside =>
      obtain ⟨w, holds, same⟩ := unsigned?_16_eq_some.mp named
      obtain rfl := UInt16.toNat_inj.mp same
      -- Nothing is said of the last two bytes but that they are there.
      obtain ⟨bytes, two, behind⟩ := exists_holds (show offset + 3 + 2 ≤ code.length from inside)
      obtain ⟨ignored, rfl⟩ := length_eq_two_iff.mp two
      exact ⟨_, holds_cons.mpr ⟨starts, holds_append.mpr ⟨holds, behind⟩⟩, .dynamicCall⟩

end

/-! ## Complete instructions -/

/-- From `offset` on, `code` holds one whole instruction of `length` bytes: a known opcode and all
its operands, with the operands of a switch at the next multiple of four. Every target, counted
from the start of the code, is allowed. -/
inductive Complete (Allowed : Int → Prop) (code : Bytes) (offset : Nat) : Nat → Prop where
  | plain {opcode : UInt8} {count : Nat} (starts : code[offset]? = some opcode)
      (shape : Shape.ofOpcode? opcode = some (.plain count))
      (inside : offset + 1 + count ≤ code.length) :
      Complete Allowed code offset (1 + count)
  | wide {opcode widened : UInt8} {count : Nat} (starts : code[offset]? = some opcode)
      (shape : Shape.ofOpcode? opcode = some .wide) (next : code[offset + 1]? = some widened)
      (widens : Shape.wideOperands? widened = some count)
      (inside : offset + 1 + count ≤ code.length) :
      Complete Allowed code offset (1 + count)
  | load {opcode : UInt8} (starts : code[offset]? = some opcode)
      (shape : Shape.ofOpcode? opcode = some .load) (inside : offset + 1 + 1 ≤ code.length) :
      Complete Allowed code offset 2
  | loadWide {opcode : UInt8} (starts : code[offset]? = some opcode)
      (shape : Shape.ofOpcode? opcode = some .loadWide) (inside : offset + 1 + 2 ≤ code.length) :
      Complete Allowed code offset 3
  | branch {opcode : UInt8} {d : Int} (starts : code[offset]? = some opcode)
      (shape : Shape.ofOpcode? opcode = some .branch)
      (reads : signed? code (offset + 1) 2 = some d) (aims : Allowed (offset + d)) :
      Complete Allowed code offset 3
  | branchFar {opcode : UInt8} {d : Int} (starts : code[offset]? = some opcode)
      (shape : Shape.ofOpcode? opcode = some .branchFar)
      (reads : signed? code (offset + 1) 4 = some d) (aims : Allowed (offset + d)) :
      Complete Allowed code offset 5
  | tableSwitch {d low high : Int} {rows : Nat}
      (starts : code[offset]? = some Opcode.tableSwitch)
      (reads : signed? code (operandsAt offset) 4 = some d) (aims : Allowed (offset + d))
      (least : signed? code (operandsAt offset + 4) 4 = some low)
      (greatest : signed? code (operandsAt offset + 8) 4 = some high) (ordered : low ≤ high)
      (counted : (rows : Int) = high - low + 1)
      (each : ∀ k < rows, ∃ d, signed? code (operandsAt offset + 12 + 4 * k) 4 = some d ∧
        Allowed (offset + d)) :
      Complete Allowed code offset (operandsAt offset + 12 + 4 * rows - offset)
  | lookupSwitch {d : Int} {rows : Nat} (starts : code[offset]? = some Opcode.lookupSwitch)
      (reads : signed? code (operandsAt offset) 4 = some d) (aims : Allowed (offset + d))
      (counted : signed? code (operandsAt offset + 4) 4 = some (rows : Int))
      (each : ∀ k < rows, ∃ key d, signed? code (operandsAt offset + 8 + 8 * k) 4 = some key ∧
        signed? code (operandsAt offset + 12 + 8 * k) 4 = some d ∧ Allowed (offset + d)) :
      Complete Allowed code offset (operandsAt offset + 8 + 8 * rows - offset)
  | call {opcode : UInt8} (starts : code[offset]? = some opcode)
      (shape : Shape.ofOpcode? opcode = some .call) (inside : offset + 1 + 2 ≤ code.length) :
      Complete Allowed code offset 3
  | dynamicCall (starts : code[offset]? = some Opcode.invokeDynamic)
      (inside : offset + 1 + 4 ≤ code.length) :
      Complete Allowed code offset 5

/-- A target that a 32-bit offset can name. -/
def Addressable (target : Int) : Prop :=
  0 ≤ target ∧ target < 4294967296

section

variable {code : Bytes} {offset : Nat}

theorem Addressable.exists_target {d : Int} (aims : Addressable (offset + d)) :
    ∃ target : Nat, d = (target : Int) - offset ∧ target < 4294967296 := by
  obtain ⟨least, most⟩ := aims
  exact ⟨(offset + d).toNat, by omega, by omega⟩

/-- Rows that can be read one by one make up a list. -/
theorem exists_rows {α : Type} {rows : Nat} {R : Nat → α → Prop} (each : ∀ k < rows, ∃ a, R k a) :
    ∃ as : List α, as.length = rows ∧ ∀ k a, as[k]? = some a → R k a := by
  obtain ⟨as, rounds⟩ := exists_rounds_iff.mpr fun k (held : k ∈ List.range rows) =>
    each k (List.mem_range.mp held)
  refine ⟨as, by rw [← rounds.length_eq, List.length_range], fun k a found => ?_⟩
  obtain ⟨k', place, related⟩ := round_at rounds.flip found
  obtain ⟨inside, rfl⟩ := List.getElem?_eq_some_iff.mp place
  rwa [List.getElem_range] at related

/-- A whole instruction stands for one that is as long as its size says. -/
theorem Complete.exists_stands {length : Nat} (complete : Complete Addressable code offset length) :
    ∃ instruction, Stands code offset instruction ∧
      (∀ target ∈ instruction.targets, target < 4294967296) ∧ instruction.size offset = length := by
  cases complete with
  | @plain opcode count starts shape inside =>
      obtain ⟨operands, rfl, follow⟩ := exists_holds inside
      exact ⟨.plain opcode operands, .plain starts shape follow, List.forall_mem_nil _, rfl⟩
  | @wide opcode widened count starts shape next widens inside =>
      obtain ⟨bytes, rfl, follow⟩ := exists_holds inside
      cases bytes with
      | nil => exact absurd widens (wideOperands?_ne_zero widened)
      | cons first operands =>
          obtain rfl : first = widened :=
            Option.some.inj ((holds_cons.mp follow).1.symm.trans next)
          exact ⟨.plain opcode (first :: operands), .wide starts shape widens follow,
            List.forall_mem_nil _, rfl⟩
  | @load opcode starts shape inside =>
      obtain ⟨bytes, one, follow⟩ := exists_holds inside
      obtain ⟨b, rfl⟩ := List.length_eq_one_iff.mp one
      refine ⟨.load opcode b.toUInt16, .load starts shape ?_, List.forall_mem_nil _,
        size_load shape _ _⟩
      exact unsigned?_8_eq_some.mpr ⟨b, follow, rfl⟩
  | @loadWide opcode starts shape inside =>
      obtain ⟨index, named⟩ := exists_unsigned?_16 inside
      exact ⟨.load opcode index, .loadWide starts shape named, List.forall_mem_nil _,
        size_loadWide shape _ _⟩
  | @branch opcode d starts shape reads aims =>
      obtain ⟨target, rfl, fits⟩ := aims.exists_target
      refine ⟨.branch opcode target, .branch starts shape reads, ?_, size_branch shape _ _⟩
      exact List.forall_mem_singleton.mpr fits
  | @branchFar opcode d starts shape reads aims =>
      obtain ⟨target, rfl, fits⟩ := aims.exists_target
      refine ⟨.branch opcode target, .branchFar starts shape reads, ?_, size_branchFar shape _ _⟩
      exact List.forall_mem_singleton.mpr fits
  | @tableSwitch d low high rows starts reads aims least greatest ordered counted each =>
      obtain ⟨fallback, rfl, fits⟩ := aims.exists_target
      obtain ⟨lowest, -, rfl⟩ := signed?_32_eq_some.mp least
      -- The list of targets is made up of what is found at each row.
      have targeted (k : Nat) (inside : k < rows) : ∃ target : Nat,
          signed? code (operandsAt offset + 12 + 4 * k) 4 = some ((target : Int) - offset) ∧
            target < 4294967296 := by
        obtain ⟨d, found, aims⟩ := each k inside
        obtain ⟨target, rfl, fits⟩ := aims.exists_target
        exact ⟨target, found, fits⟩
      obtain ⟨targets, rfl, reaches⟩ := exists_rows targeted
      refine ⟨.tableSwitch fallback lowest.toInt32 targets, .tableSwitch starts ?_ reads least ?_
        fun k target found => (reaches k target found).1, ?_, ?_⟩
      · rintro rfl
        simp only [List.length_nil] at counted
        omega
      · rw [greatest, counted]
        congr 1
        omega
      · refine List.forall_mem_cons.mpr ⟨fits, fun target held => ?_⟩
        obtain ⟨k, found⟩ := List.mem_iff_getElem?.mp held
        exact (reaches k target found).2
      · rw [size, operandsAt_eq]
        omega
  | @lookupSwitch d rows starts reads aims counted each =>
      obtain ⟨fallback, rfl, fits⟩ := aims.exists_target
      have paired (k : Nat) (inside : k < rows) : ∃ pair : Int32 × Nat,
          (signed? code (operandsAt offset + 8 + 8 * k) 4 = some pair.1.toInt ∧
            signed? code (operandsAt offset + 12 + 8 * k) 4 = some ((pair.2 : Int) - offset)) ∧
          pair.2 < 4294967296 := by
        obtain ⟨key, d, keyed, found, aims⟩ := each k inside
        obtain ⟨w, -, rfl⟩ := signed?_32_eq_some.mp keyed
        obtain ⟨target, rfl, fits⟩ := aims.exists_target
        exact ⟨(w.toInt32, target), ⟨keyed, found⟩, fits⟩
      obtain ⟨pairs, rfl, reaches⟩ := exists_rows paired
      refine ⟨.lookupSwitch fallback pairs, .lookupSwitch starts reads counted
        fun k pair found => (reaches k pair found).1, ?_, ?_⟩
      · refine List.forall_mem_cons.mpr ⟨fits, fun target named => ?_⟩
        obtain ⟨pair, held, rfl⟩ := List.mem_map.mp named
        obtain ⟨k, found⟩ := List.mem_iff_getElem?.mp held
        exact (reaches k pair found).2
      · rw [size, operandsAt_eq]
        omega
  | @call opcode starts shape inside =>
      obtain ⟨index, named⟩ := exists_unsigned?_16 inside
      exact ⟨.call opcode index, .call starts shape named, List.forall_mem_nil _, rfl⟩
  | dynamicCall starts inside =>
      obtain ⟨index, named⟩ :=
        exists_unsigned?_16 (Nat.le_trans (Nat.add_le_add_left (by decide) (offset + 1)) inside)
      exact ⟨.dynamicCall index, .dynamicCall starts named inside, List.forall_mem_nil _, rfl⟩

/-- An instruction that stands in the code is a whole one. -/
theorem Stands.complete {instruction : Instruction} (stands : Stands code offset instruction)
    (small : ∀ target ∈ instruction.targets, target < 4294967296) :
    Complete Addressable code offset (instruction.size offset) := by
  have aims (target : Nat) (named : target ∈ instruction.targets) :
      Addressable (offset + ((target : Int) - offset)) := by
    have fits := small target named
    unfold Addressable
    omega
  cases stands with
  | plain starts shape follow =>
      have inside := (holds_cons.mpr ⟨starts, follow⟩).end_le (List.cons_ne_nil _ _)
      rw [List.length_cons, ← Nat.add_assoc, Nat.add_right_comm] at inside
      exact .plain starts shape inside
  | wide starts shape widens follow =>
      have inside := (holds_cons.mpr ⟨starts, follow⟩).end_le (List.cons_ne_nil _ _)
      rw [List.length_cons, ← Nat.add_assoc, Nat.add_right_comm] at inside
      exact .wide starts shape (holds_cons.mp follow).1 widens inside
  | load starts shape named =>
      rw [size_load shape]
      exact .load starts shape (end_le_of_unsigned? named)
  | loadWide starts shape named =>
      rw [size_loadWide shape]
      exact .loadWide starts shape (end_le_of_unsigned? named)
  | branch starts shape reaches =>
      rw [size_branch shape]
      exact .branch starts shape reaches (aims _ List.mem_cons_self)
  | branchFar starts shape reaches =>
      rw [size_branchFar shape]
      exact .branchFar starts shape reaches (aims _ List.mem_cons_self)
  | @tableSwitch fallback low targets starts nonempty reachesFallback least greatest reaches =>
      have positive := List.length_pos_iff.mpr nonempty
      have length : size offset (.tableSwitch fallback low targets) =
          operandsAt offset + 12 + 4 * targets.length - offset := by
        rw [size, operandsAt_eq]
        omega
      rw [length]
      refine .tableSwitch starts reachesFallback (aims fallback List.mem_cons_self) least greatest
        (by omega) (by omega) fun k inside => ?_
      have found := List.getElem?_eq_getElem inside
      exact ⟨_, reaches k _ found, aims _ (List.mem_cons_of_mem _ (List.mem_of_getElem? found))⟩
  | @lookupSwitch fallback pairs starts reachesFallback counted reaches =>
      have length : size offset (.lookupSwitch fallback pairs) =
          operandsAt offset + 8 + 8 * pairs.length - offset := by
        rw [size, operandsAt_eq]
        omega
      rw [length]
      refine .lookupSwitch starts reachesFallback (aims fallback List.mem_cons_self) counted
        fun k inside => ?_
      have found := List.getElem?_eq_getElem inside
      obtain ⟨key, reached⟩ := reaches k _ found
      refine ⟨_, _, key, reached, aims _ (List.mem_cons_of_mem _ (List.mem_map_of_mem ?_))⟩
      exact List.mem_of_getElem? found
  | call starts shape named => exact .call starts shape (end_le_of_unsigned? named)
  | dynamicCall starts named inside => exact .dynamicCall starts inside

/-- Only displacements of 32 bits are ever judged. -/
theorem Complete.imp {Allowed Wider : Int → Prop} {length : Nat}
    (wider : ∀ d : Int, d < 2147483648 → Allowed (offset + d) → Wider (offset + d))
    (complete : Complete Allowed code offset length) : Complete Wider code offset length := by
  have wider32 {start : Nat} {d : Int} (reads : signed? code start 4 = some d)
      (aims : Allowed (offset + d)) : Wider (offset + d) := by
    obtain ⟨w, -, rfl⟩ := signed?_32_eq_some.mp reads
    exact wider _ w.toInt32.toInt_lt aims
  cases complete with
  | plain starts shape inside => exact .plain starts shape inside
  | wide starts shape next widens inside => exact .wide starts shape next widens inside
  | load starts shape inside => exact .load starts shape inside
  | loadWide starts shape inside => exact .loadWide starts shape inside
  | branch starts shape reads aims =>
      obtain ⟨w, -, rfl⟩ := signed?_16_eq_some.mp reads
      have most : w.toInt16.toInt < 32768 := w.toInt16.toInt_lt
      -- A displacement of 16 bits is within the 32 bits of the others.
      exact .branch starts shape reads (wider _ (by omega) aims)
  | branchFar starts shape reads aims => exact .branchFar starts shape reads (wider32 reads aims)
  | tableSwitch starts reads aims least greatest ordered counted each =>
      refine .tableSwitch starts reads (wider32 reads aims) least greatest ordered counted
        fun k inside => ?_
      obtain ⟨d, found, aims⟩ := each k inside
      exact ⟨d, found, wider32 found aims⟩
  | lookupSwitch starts reads aims counted each =>
      refine .lookupSwitch starts reads (wider32 reads aims) counted fun k inside => ?_
      obtain ⟨key, d, keyed, found, aims⟩ := each k inside
      exact ⟨key, d, keyed, found, wider32 found aims⟩
  | call starts shape inside => exact .call starts shape inside
  | dynamicCall starts inside => exact .dynamicCall starts inside

theorem Complete.lt_length {Allowed : Int → Prop} {length : Nat}
    (complete : Complete Allowed code offset length) : offset < code.length := by
  have present {opcode : UInt8} (starts : code[offset]? = some opcode) : offset < code.length :=
    (List.getElem?_eq_some_iff.mp starts).1
  cases complete <;> exact present ‹_›

end

end Instruction

/-! ## Whole code strings -/

open Instruction

/-- From `offset` to its end, `code` is a row of whole instructions that start at `starts`. -/
inductive Cuts (Allowed : Int → Prop) (code : Bytes) : Nat → List Nat → Prop where
  | done : Cuts Allowed code code.length []
  | step {offset length : Nat} {starts : List Nat} (complete : Complete Allowed code offset length)
      (rest : Cuts Allowed code (offset + length) starts) :
      Cuts Allowed code offset (offset :: starts)

/-- From `offset` to its end, `code` is what `row` says: the first instruction is at `offset`, each
further one is where the one before it ends by its size, the last one ends with the code, and
each of them stands where it is said to, with targets that fit 32 bits. -/
structure Fills (code : Bytes) (offset : Nat) (row : List Placed) : Prop where
  follow : stops row code.length = landings row offset
  stands : ∀ p ∈ row, p.instruction.Stands code p.offset
  small : ∀ p ∈ row, ∀ target ∈ p.instruction.targets, target < 4294967296

section

variable {code : Bytes} {offset : Nat}

theorem fills_nil : Fills code offset [] ↔ offset = code.length := by
  constructor
  · intro fills
    exact (List.singleton_inj.mp fills.follow).symm
  · rintro rfl
    exact ⟨rfl, List.forall_mem_nil _, List.forall_mem_nil _⟩

theorem fills_cons {p : Placed} {row : List Placed} :
    Fills code offset (p :: row) ↔
      p.offset = offset ∧ p.instruction.Stands code offset ∧
        (∀ target ∈ p.instruction.targets, target < 4294967296) ∧
        Fills code (offset + p.instruction.size offset) row := by
  constructor
  · rintro ⟨follow, stands, small⟩
    obtain ⟨here, behind⟩ := List.cons.inj follow
    obtain ⟨first, others⟩ := List.forall_mem_cons.mp stands
    obtain ⟨smallFirst, smallOthers⟩ := List.forall_mem_cons.mp small
    rw [here] at first
    exact ⟨here, first, smallFirst, behind, others, smallOthers⟩
  · rintro ⟨rfl, first, smallFirst, behind, others, smallOthers⟩
    refine ⟨?_, List.forall_mem_cons.mpr ⟨first, others⟩,
      List.forall_mem_cons.mpr ⟨smallFirst, smallOthers⟩⟩
    rw [stops_cons, landings, behind]

/-- No instruction of a row of formats reaches beyond its end. -/
theorem Tiles.end_le {bytes : Bytes} {row : List Placed} (tiles : Tiles offset bytes row) :
    ∀ p ∈ row, p.offset + p.instruction.size p.offset ≤ offset + bytes.length := by
  induction tiles with
  | nil offset => exact List.forall_mem_nil _
  | @cons offset instruction piece rest row encoded _ ih =>
      have length := encoded.length
      rw [List.length_append]
      refine List.forall_mem_cons.mpr ⟨?_, fun p member => ?_⟩
      · show offset + instruction.size offset ≤ _
        omega
      · have inside := ih p member
        omega

/-- A row of formats fills the code in which it stands. -/
theorem Tiles.fills {bytes : Bytes} {row : List Placed} (tiles : Tiles offset bytes row)
    (rest : code.drop offset = bytes) (inside : offset ≤ code.length) : Fills code offset row := by
  induction tiles with
  | nil offset =>
      rw [List.drop_eq_nil_iff] at rest
      exact fills_nil.mpr (Nat.le_antisymm inside rest)
  | @cons offset instruction piece rest' row encoded _ ih =>
      have holds : Holds code offset piece := ⟨rest', rest.symm⟩
      have room := holds.end_le encoded.ne_nil
      have behind : code.drop (offset + piece.length) = rest' := by
        rw [← List.drop_drop, rest, List.drop_left]
      refine fills_cons.mpr ⟨rfl, encoded.stands holds, ?_, ?_⟩
      · exact Encodable.targets_lt ⟨offset, piece, encoded⟩
      · rw [← encoded.length]
        exact ih behind room

theorem Fills.tiles {row : List Placed} (fills : Fills code offset row) :
    Tiles offset (code.drop offset) row := by
  induction row generalizing offset with
  | nil =>
      rw [fills_nil.mp fills, List.drop_length]
      exact .nil _
  | cons p row ih =>
      obtain ⟨rfl, stands, small, behind⟩ := fills_cons.mp fills
      obtain ⟨piece, ⟨rest, whole⟩, encoded⟩ := stands.encoded small
      have tiles := ih behind
      rw [← encoded.length, ← List.drop_drop, ← whole, List.drop_left] at tiles
      rw [← whole]
      exact .cons encoded tiles

/-- What fills the code starts where the code is cut. -/
theorem Cuts.exists_fills {starts : List Nat} (cuts : Cuts Addressable code offset starts) :
    ∃ row, row.map Placed.offset = starts ∧ Fills code offset row := by
  induction cuts with
  | done => exact ⟨[], rfl, fills_nil.mpr rfl⟩
  | @step offset length starts complete _ ih =>
      obtain ⟨instruction, stands, small, rfl⟩ := complete.exists_stands
      obtain ⟨row, rfl, behind⟩ := ih
      exact ⟨⟨offset, instruction⟩ :: row, rfl, fills_cons.mpr ⟨rfl, stands, small, behind⟩⟩

theorem Fills.cuts {row : List Placed} (fills : Fills code offset row) :
    Cuts Addressable code offset (row.map Placed.offset) := by
  induction row generalizing offset with
  | nil =>
      rw [fills_nil.mp fills]
      exact .done
  | cons p row ih =>
      obtain ⟨rfl, stands, small, behind⟩ := fills_cons.mp fills
      exact .step (stands.complete small) (ih behind)

theorem Cuts.imp {Allowed Wider : Int → Prop} {starts : List Nat}
    (wider : ∀ offset < code.length, ∀ d : Int, d < 2147483648 → Allowed (offset + d) →
      Wider (offset + d))
    (cuts : Cuts Allowed code offset starts) : Cuts Wider code offset starts := by
  induction cuts with
  | done => exact .done
  | @step offset length starts complete _ ih =>
      exact .step (complete.imp (wider offset complete.lt_length)) ih

end

/-- Decoding succeeds exactly on rows of whole instructions, and what it returns is what stands in
the code: the first instruction at 0, each further one where the one before it ends, the last
one ending with the code, and all opcodes, indices, keys and displacements the numbers found at
their places. In code of less than 2³² bytes, where each instruction starts and ends fits 32 bits.
A row of whole instructions is decoded, however it is given, if its targets are neither negative
nor beyond 32 bits; in code of at most 2³¹ bytes none is beyond. -/
theorem decode_reads_places (code : Bytes) (short : code.length < 4294967296) :
    (∀ row, decode code = .ok row ↔ Fills code 0 row) ∧
    (∀ row, decode code = .ok row → ∀ p ∈ row,
      p.offset + p.instruction.size p.offset < 4294967296) ∧
    (∀ starts, (∃ row, decode code = .ok row ∧ row.map Placed.offset = starts) ↔
      Cuts Addressable code 0 starts) ∧
    (code.length ≤ 2147483648 →
      ∀ starts, (∃ row, decode code = .ok row ∧ row.map Placed.offset = starts) ↔
        Cuts (fun target => 0 ≤ target) code 0 starts) := by
  have fills (row : List Placed) : decode code = .ok row ↔ Fills code 0 row := by
    rw [decode_eq_ok]
    exact ⟨fun tiles => tiles.fills rfl (Nat.zero_le _), Fills.tiles⟩
  have cuts (starts : List Nat) :
      (∃ row, decode code = .ok row ∧ row.map Placed.offset = starts) ↔
        Cuts Addressable code 0 starts := by
    simp only [fills]
    constructor
    · rintro ⟨row, filled, rfl⟩
      exact filled.cuts
    · intro cuts
      obtain ⟨row, same, filled⟩ := cuts.exists_fills
      exact ⟨row, filled, same⟩
  refine ⟨fills, fun row decoded p member => ?_, cuts, fun half starts => (cuts starts).trans ?_⟩
  · exact Nat.lt_of_le_of_lt ((decode_eq_ok.mp decoded).end_le p member) (by omega)
  · constructor
    · exact Cuts.imp fun offset _ d _ aims => aims.1
    · -- An instruction starts below 2³¹, and no displacement leads 2³¹ bytes further.
      exact Cuts.imp fun offset inside d most aims => ⟨aims, by omega⟩

/-- A jump into the operands of a switch, the switch with a negative key and a jump back, a widened
instruction, a dynamic call whose last byte is not zero, and a switch without rows. -/
theorem decode_reads_places_astray :
    let code : Bytes := [0xA7, 0, 5, 0xAA, 0, 0, 0, 21, 0xFF, 0xFF, 0xFF, 0xFF, 0, 0, 0, 0,
      0, 0, 0, 27, 0xFF, 0xFF, 0xFF, 0xFD, 0xC4, 0x84, 0, 1, 0, 2, 0xBA, 0, 7, 0, 5,
      0xAB, 0, 0, 0, 9, 0, 0, 0, 0, 0xB1]
    code.length < 4294967296 ∧ code.length ≤ 2147483648 ∧
      decode code = .ok [⟨0, .branch 0xA7 5⟩, ⟨3, .tableSwitch 24 (-1) [30, 0]⟩,
        ⟨24, .plain 0xC4 [0x84, 0, 1, 0, 2]⟩, ⟨30, .dynamicCall 7⟩, ⟨35, .lookupSwitch 44 []⟩,
        ⟨44, .plain 0xB1 []⟩] ∧
      (Instruction.tableSwitch 24 (-1) [30, 0]).Stands code 3 ∧
      Cuts (fun target => 0 ≤ target) code 0 [0, 3, 24, 30, 35, 44] := by
  intro code
  have short : code.length < 4294967296 := by decide
  have half : code.length ≤ 2147483648 := by decide
  have decoded : decode code = .ok [⟨0, .branch 0xA7 5⟩, ⟨3, .tableSwitch 24 (-1) [30, 0]⟩,
      ⟨24, .plain 0xC4 [0x84, 0, 1, 0, 2]⟩, ⟨30, .dynamicCall 7⟩, ⟨35, .lookupSwitch 44 []⟩,
      ⟨44, .plain 0xB1 []⟩] := by decide +kernel
  obtain ⟨fills, -, -, cuts⟩ := decode_reads_places code short
  refine ⟨short, half, decoded, ?_, (cuts half _).mp ⟨_, decoded, rfl⟩⟩
  exact ((fills _).mp decoded).stands ⟨3, _⟩ (by simp)

/-! ## A target beyond 32 bits

A far jump goes as many bytes ahead as it can. It stands behind a row of instructions that do
nothing, so many that its target does not fit 32 bits. -/

/-- A far jump without a place to go to is refused. -/
theorem decodeAt_branchFar_eq_error {offset : Nat} {opcode : UInt8} {rest left : Bytes} {w : UInt32}
    {e : Malformed} (shape : Shape.ofOpcode? opcode = some .branchFar)
    (operand : operands Reader.u32 rest = .ok (w, left))
    (aims : absolute offset (displacement32 w) = .error e) :
    decodeAt offset opcode rest = .error e := by
  rw [decodeAt, shape]
  simp only [decodeShape, operand, bind, Except.bind, aims]

namespace Remote

/-- The far jump behind `n` bytes. -/
def code (n : Nat) : Bytes :=
  List.replicate n 0 ++ [0xC8, 0x7F, 0xFF, 0xFF, 0xFF]

theorem drop_code (n : Nat) : (code n).drop n = [0xC8, 0x7F, 0xFF, 0xFF, 0xFF] := by
  rw [code, List.drop_left' List.length_replicate]

theorem complete_jump (n : Nat) : Complete (fun target => 0 ≤ target) (code n) n 5 := by
  have whole : Holds (code n) n (0xC8 :: be32 0x7FFFFFFF) := by
    rw [Holds, drop_code]
    exact List.prefix_refl _
  obtain ⟨starts, operand⟩ := holds_cons.mp whole
  have reads : signed? (code n) (n + 1) 4 = some 2147483647 :=
    signed?_32_eq_some.mpr ⟨_, operand, by decide⟩
  exact .branchFar starts (by decide) reads (by omega)

/-- The string is a row of whole instructions, and no target is negative. -/
theorem exists_cuts (n : Nat) : ∃ starts, Cuts (fun target => 0 ≤ target) (code n) 0 starts := by
  have length : (code n).length = n + 5 := by simp [code]
  -- From the jump back to the start, one instruction at a time.
  suffices back : ∀ k ≤ n, ∃ starts, Cuts (fun target => 0 ≤ target) (code n) (n - k) starts by
    have all := back n (Nat.le_refl n)
    rwa [Nat.sub_self] at all
  intro k
  induction k with
  | zero =>
      intro _
      refine ⟨[n], .step (complete_jump n) ?_⟩
      rw [Nat.sub_zero, ← length]
      exact .done
  | succ k ih =>
      intro inside
      obtain ⟨starts, cuts⟩ := ih (Nat.le_of_succ_le inside)
      have here : (code n)[n - (k + 1)]? = some 0 := by
        rw [code, List.getElem?_append_left (by simp; omega), List.getElem?_replicate,
          if_pos (by omega)]
      have idle : Shape.ofOpcode? 0 = some (.plain 0) := by decide
      have behind : n - (k + 1) + (1 + 0) = n - k := by omega
      refine ⟨(n - (k + 1)) :: starts, .step (.plain here idle (by omega)) ?_⟩
      rwa [behind]

theorem decodeOnto_idle (n offset : Nat) (decoded : List Placed) (rest : Bytes) :
    ∃ more, decodeOnto 0 offset decoded (List.replicate n 0 ++ rest) =
      decodeOnto 0 (offset + n) more rest := by
  induction n generalizing offset decoded with
  | zero => exact ⟨decoded, rfl⟩
  | succ n ih =>
      have idle : (Instruction.plain 0 []).Encoded offset [0] := .plain (by decide)
      obtain ⟨more, same⟩ := ih (offset + 1) (⟨offset, .plain 0 []⟩ :: decoded)
      refine ⟨more, ?_⟩
      have first := decodeOnto_piece idle decoded (List.replicate n 0 ++ rest)
      rw [List.replicate_succ, List.cons_append, ← List.singleton_append, first]
      rw [show offset + (n + 1) = offset + 1 + n by omega]
      exact same

/-- A jump that leads beyond 32 bits is refused. -/
theorem decode_code {n : Nat} (remote : 2147483649 ≤ n) :
    decode (code n) = .error (.badOffset n) := by
  obtain ⟨more, same⟩ := decodeOnto_idle n 0 [] [0xC8, 0x7F, 0xFF, 0xFF, 0xFF]
  have operand : operands Reader.u32 [0x7F, 0xFF, 0xFF, 0xFF] = .ok (0x7FFFFFFF, []) := by decide
  have displacement : displacement32 0x7FFFFFFF = 2147483647 := by decide
  have beyond : absolute n (displacement32 0x7FFFFFFF) = .error (.badOffset n) := by
    rw [displacement, absolute, if_neg (by omega)]
  have refused := decodeAt_branchFar_eq_error (by decide : Shape.ofOpcode? 0xC8 = _) operand beyond
  rw [decode, code, same, Nat.zero_add, decodeOnto, refused]

end Remote

/-- Behind 2³¹ + 1 instructions that do nothing, a jump of 2³¹ - 1 bytes is refused, although its
target is not negative. -/
theorem decode_refuses_remote :
    let code : Bytes := List.replicate 2147483649 0 ++ [0xC8, 0x7F, 0xFF, 0xFF, 0xFF]
    (∃ starts, Cuts (fun target => 0 ≤ target) code 0 starts) ∧
      decode code = .error (.badOffset 2147483649) :=
  ⟨Remote.exists_cuts 2147483649, Remote.decode_code (Nat.le_refl _)⟩

end Downlevel
