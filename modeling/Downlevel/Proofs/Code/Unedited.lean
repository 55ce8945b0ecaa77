/-
# Downlevel.Proofs.Code.Unedited — assembling what was decoded

Code that is decoded and assembled again without an edit keeps its layout: every instruction
stands where it stood (`sends_layOut_self`), so every displacement is written as it was read.
The bytes come back, but for those that decoding passes over: the padding of a switch and the
last two bytes of a dynamic call (`Placed.unread`). These are written as zeros
(`assemble_unedited`).
-/
import Downlevel.Proofs.Code.Reassembly

namespace Downlevel

set_option autoImplicit false

open Sequencing

/-! ## Bytes that are passed over -/

/-- The positions of the bytes of an instruction that decoding passes over. -/
def Placed.unread (p : Placed) : List Nat :=
  match p.instruction with
  | .tableSwitch _ _ _ => List.range' (p.offset + 1) (switchPadding p.offset)
  | .lookupSwitch _ _ => List.range' (p.offset + 1) (switchPadding p.offset)
  | .dynamicCall _ => [p.offset + 3, p.offset + 4]
  | _ => []

/-- They lie behind the opcode and inside the instruction. -/
theorem Placed.unread_inside {offset : Nat} {instruction : Instruction} {i : Nat}
    (unread : i ∈ Placed.unread ⟨offset, instruction⟩) :
    offset < i ∧ i < offset + instruction.size offset := by
  have padded (size : Nat) (member : i ∈ List.range' (offset + 1) (switchPadding offset)) :
      offset < i ∧ i < offset + (1 + switchPadding offset + size) := by
    obtain ⟨least, most⟩ := List.mem_range'_1.mp member
    omega
  cases instruction with
  | tableSwitch fallback low targets =>
      rw [Instruction.size, Nat.add_assoc (1 + switchPadding offset)]
      exact padded _ unread
  | lookupSwitch fallback pairs =>
      rw [Instruction.size, Nat.add_assoc (1 + switchPadding offset)]
      exact padded _ unread
  | dynamicCall index =>
      have either : i = offset + 3 ∨ i = offset + 4 := by
        simpa [Placed.unread] using unread
      simp only [Instruction.size]
      omega
  | _ => exact absurd unread List.not_mem_nil

/-- `bytes'` has zeros at the given positions and is `bytes` elsewhere, where the first byte
of either is at `offset`. -/
def Wiped (positions : List Nat) (offset : Nat) (bytes bytes' : Bytes) : Prop :=
  ∀ k, bytes'[k]? = if offset + k ∈ positions then some 0 else bytes[k]?

namespace Wiped

theorem nothing (offset : Nat) (bytes : Bytes) : Wiped [] offset bytes bytes := by
  intro k
  simp

theorem length_eq {positions : List Nat} {offset : Nat} {bytes bytes' : Bytes}
    (wiped : Wiped positions offset bytes bytes')
    (inside : ∀ i ∈ positions, i < offset + bytes.length) : bytes'.length = bytes.length := by
  have ends (k : Nat) : bytes'.length ≤ k ↔ bytes.length ≤ k := by
    rw [← List.getElem?_eq_none_iff, ← List.getElem?_eq_none_iff, wiped k]
    split
    · rename_i member
      have bound := inside _ member
      have present : k < bytes.length := by omega
      simp [present]
    · rfl
  have most := (ends bytes.length).mpr (Nat.le_refl _)
  have least := (ends bytes'.length).mp (Nat.le_refl _)
  omega

/-- Two runs of bytes, one behind the other, are wiped if each of them is. -/
theorem append {positions positions' : List Nat} {offset : Nat} {piece piece' rest rest' : Bytes}
    (first : Wiped positions offset piece piece') (same : piece'.length = piece.length)
    (before : ∀ i ∈ positions, i < offset + piece.length)
    (others : Wiped positions' (offset + piece.length) rest rest')
    (behind : ∀ i ∈ positions', offset + piece.length ≤ i) :
    Wiped (positions ++ positions') offset (piece ++ rest) (piece' ++ rest') := by
  intro k
  by_cases here : k < piece.length
  · have absent : offset + k ∉ positions' := fun member => by
      have bound := behind _ member
      omega
    rw [List.getElem?_append_left (by omega), List.getElem?_append_left here, first k]
    simp [absent]
  · have absent : offset + k ∉ positions := fun member => by
      have bound := before _ member
      omega
    have place : offset + piece.length + (k - piece.length) = offset + k := by omega
    rw [List.getElem?_append_right (by omega), List.getElem?_append_right (by omega), same,
      others (k - piece.length), place]
    simp [absent]

/-- Nothing changes exactly if there were zeros before. -/
theorem eq_iff {positions : List Nat} {bytes bytes' : Bytes}
    (wiped : Wiped positions 0 bytes bytes') :
    bytes' = bytes ↔ ∀ i ∈ positions, bytes[i]? = some 0 := by
  constructor
  · rintro rfl i member
    have zero := wiped i
    rwa [Nat.zero_add, if_pos member] at zero
  · intro zeros
    apply List.ext_getElem?
    intro k
    rw [wiped k, Nat.zero_add]
    split
    · rename_i member
      exact (zeros k member).symm
    · rfl

/-- The padding of a switch is wiped. -/
theorem padding (opcode : UInt8) {offset : Nat} {padding : Bytes}
    (padded : padding.length = switchPadding offset) (rest : Bytes) :
    Wiped (List.range' (offset + 1) (switchPadding offset)) offset (opcode :: (padding ++ rest))
      (opcode :: (Placed.padding offset ++ rest)) := by
  have same : (Placed.padding offset).length = padding.length := by
    rw [padded]
    exact List.length_replicate
  intro k
  cases k with
  | zero =>
      have absent : offset + 0 ∉ List.range' (offset + 1) (switchPadding offset) := by
        rw [List.mem_range'_1]
        omega
      rw [if_neg absent]
      rfl
  | succ k =>
      rw [List.getElem?_cons_succ, List.getElem?_cons_succ]
      by_cases here : k < switchPadding offset
      · have member : offset + (k + 1) ∈ List.range' (offset + 1) (switchPadding offset) := by
          rw [List.mem_range'_1]
          omega
        rw [if_pos member, List.getElem?_append_left (by omega)]
        simp [Placed.padding, here]
      · have absent : offset + (k + 1) ∉ List.range' (offset + 1) (switchPadding offset) := by
          rw [List.mem_range'_1]
          omega
        rw [if_neg absent, List.getElem?_append_right (by omega),
          List.getElem?_append_right (by omega), same]

/-- The last two bytes of a dynamic call are wiped. -/
theorem dynamicCall (offset : Nat) (index ignored : UInt16) :
    Wiped [offset + 3, offset + 4] offset (Opcode.invokeDynamic :: (be16 index ++ be16 ignored))
      (Opcode.invokeDynamic :: (be16 index ++ [0, 0])) := by
  intro k
  rcases k with _ | _ | _ | _ | _ | k <;> simp [be16]

end Wiped

/-! ## Encoding in place -/

namespace Placed

/-- A 16-bit displacement to where the target went is written. -/
theorem near_of_reaches {map : OffsetMap} {position target moved : Nat} {w : UInt16}
    (sends : map.Sends target moved)
    (reaches : Instruction.Reaches position (Instruction.displacement16 w) moved) (offset : Nat) :
    near map position offset target = .ok (be16 w) := by
  have distance : (moved : Int) - position = Instruction.displacement16 w := by
    have ends := reaches.1
    omega
  refine bind_eq_ok.mpr ⟨_, distance_eq_ok.mpr ⟨moved, sends, rfl⟩, ?_⟩
  have least := w.toInt16.le_toInt
  have most := w.toInt16.toInt_lt
  rw [distance, Instruction.displacement16, if_pos ⟨least, most⟩, Int16.ofInt_toInt,
    UInt16.toUInt16_toInt16]
  rfl

/-- A 32-bit displacement to where the target went is written. -/
theorem far_of_reaches {map : OffsetMap} {position target moved : Nat} {w : UInt32}
    (sends : map.Sends target moved)
    (reaches : Instruction.Reaches position (Instruction.displacement32 w) moved) (offset : Nat) :
    far map position offset target = .ok (be32 w) := by
  have distance : (moved : Int) - position = Instruction.displacement32 w := by
    have ends := reaches.1
    omega
  refine bind_eq_ok.mpr ⟨_, distance_eq_ok.mpr ⟨moved, sends, rfl⟩, ?_⟩
  have least := w.toInt32.le_toInt
  have most := w.toInt32.toInt_lt
  rw [distance, Instruction.displacement32, if_pos ⟨least, most⟩, Int32.ofInt_toInt,
    UInt32.toUInt32_toInt32]
  rfl

/-- The rows of a table switch are written as they were read. -/
theorem far_targets {map : OffsetMap} {position : Nat} {words : List UInt32} {targets : List Nat}
    (reaches : List.Forall₂ (fun w target =>
      Instruction.Reaches position (Instruction.displacement32 w) target) words targets)
    (fixed : ∀ t ∈ targets, map.Sends t t) (offset : Nat) :
    targets.mapM (far map position offset) = .ok (words.map be32) := by
  refine mapM_eq_ok.mpr ?_
  induction reaches with
  | nil => exact .nil
  | cons first _ ih =>
      refine .cons (far_of_reaches (fixed _ List.mem_cons_self) first offset)
        (ih fun t member => ?_)
      exact fixed t (List.mem_cons_of_mem _ member)

/-- The rows of a lookup switch are written as they were read. -/
theorem far_pairs {map : OffsetMap} {position : Nat} {words : List (UInt32 × UInt32)}
    {pairs : List (Int32 × Nat)}
    (reaches : List.Forall₂ (fun word pair => pair.1 = word.1.toInt32 ∧
      Instruction.Reaches position (Instruction.displacement32 word.2) pair.2) words pairs)
    (fixed : ∀ t ∈ pairs.map Prod.snd, map.Sends t t) (offset : Nat) :
    (pairs.mapM fun p => do
      return be32 p.1.toUInt32 ++ (← far map position offset p.2) :
        Except AssembleError (List Bytes)) =
      .ok (words.map fun word => be32 word.1 ++ be32 word.2) := by
  refine mapM_eq_ok.mpr ?_
  induction reaches with
  | nil => exact .nil
  | @cons word pair words pairs first _ ih =>
      obtain ⟨key, reached⟩ := first
      refine .cons ?_ (ih fun t member => fixed t (List.mem_cons_of_mem _ member))
      have written := far_of_reaches (fixed pair.2 List.mem_cons_self) reached offset
      refine bind_eq_ok.mpr ⟨_, written, ?_⟩
      rw [key, UInt32.toUInt32_toInt32]
      rfl

/-- An instruction that stays, with targets that stay, is encoded to the bytes it was decoded
from, but for those that were passed over. -/
theorem encode_unmoved {map : OffsetMap} {offset : Nat} {instruction : Instruction} {piece : Bytes}
    (encoded : instruction.Encoded offset piece)
    (fixed : ∀ t ∈ instruction.targets, map.Sends t t) :
    ∃ piece', encode map offset ⟨offset, instruction⟩ = .ok piece' ∧
      Wiped (unread ⟨offset, instruction⟩) offset piece piece' := by
  cases encoded with
  | plain => exact ⟨_, rfl, .nothing _ _⟩
  | wide => exact ⟨_, rfl, .nothing _ _⟩
  | @load opcode index shape =>
      refine ⟨[opcode, index], ?_, .nothing _ _⟩
      simp [encode, Instruction.ldc_iff_load.mpr shape, pure, Except.pure]
  | @loadWide opcode index shape =>
      refine ⟨opcode :: be16 index, ?_, .nothing _ _⟩
      simp [encode, Instruction.not_ldc_of_loadWide shape, pure, Except.pure]
  | @branch opcode w target shape reaches =>
      refine ⟨opcode :: be16 w, ?_, .nothing _ _⟩
      simp only [encode, Instruction.not_isFar_of_branch shape]
      have written := near_of_reaches (fixed target List.mem_cons_self) reaches offset
      exact bind_eq_ok.mpr ⟨_, written, rfl⟩
  | @branchFar opcode w target shape reaches =>
      refine ⟨opcode :: be32 w, ?_, .nothing _ _⟩
      simp only [encode, Instruction.isFar_iff_branchFar.mpr shape]
      have written := far_of_reaches (fixed target List.mem_cons_self) reaches offset
      exact bind_eq_ok.mpr ⟨_, written, rfl⟩
  | @tableSwitch padding w low high words fallback targets padded count _ reachesFallback reaches =>
      have first := far_of_reaches (fixed fallback List.mem_cons_self) reachesFallback offset
      have others := far_targets reaches (fun t member => fixed t (List.mem_cons_of_mem _ member))
        offset
      refine ⟨_, bind_eq_ok.mpr ⟨_, first, bind_eq_ok.mpr ⟨_, others, rfl⟩⟩, ?_⟩
      rw [← reaches.length_eq, displacement_high count, UInt32.toUInt32_toInt32,
        UInt32.toUInt32_toInt32, ← List.flatMap_def]
      exact .padding _ padded _
  | @lookupSwitch padding w count words fallback pairs padded counted _ reachesFallback reaches =>
      have first := far_of_reaches (fixed fallback List.mem_cons_self) reachesFallback offset
      have others := far_pairs reaches (fun t member => fixed t (List.mem_cons_of_mem _ member))
        offset
      refine ⟨_, bind_eq_ok.mpr ⟨_, first, bind_eq_ok.mpr ⟨_, others, rfl⟩⟩, ?_⟩
      rw [← reaches.length_eq, counted, UInt32.ofNat_toNat, ← List.flatMap_def]
      exact .padding _ padded _
  | call => exact ⟨_, rfl, .nothing _ _⟩
  | @dynamicCall index ignored => exact ⟨_, rfl, .dynamicCall offset index ignored⟩

end Placed

/-! ## Whole code strings -/

/-- A row of instructions whose targets stay is emitted in place. -/
theorem Tiles.emits_unmoved {map : OffsetMap} {offset : Nat} {bytes : Bytes} {code : List Placed}
    (tiles : Tiles offset bytes code)
    (fixed : ∀ p ∈ code, ∀ t ∈ p.instruction.targets, map.Sends t t) :
    ∃ row, Emits map offset code row ∧ Wiped (code.flatMap Placed.unread) offset bytes row ∧
      ∀ i ∈ code.flatMap Placed.unread, offset < i := by
  induction tiles with
  | nil offset =>
      exact ⟨[], .nil offset, .nothing _ _, fun i member => absurd member List.not_mem_nil⟩
  | @cons offset instruction piece rest code encoded _ ih =>
      obtain ⟨piece', written, wiped⟩ :=
        Placed.encode_unmoved encoded (fixed ⟨offset, instruction⟩ List.mem_cons_self)
      obtain ⟨row, emits, wipedRest, behind⟩ :=
        ih fun p member => fixed p (List.mem_cons_of_mem _ member)
      have inside (i : Nat) (member : i ∈ Placed.unread ⟨offset, instruction⟩) :
          offset < i ∧ i < offset + piece.length := by
        rw [encoded.length]
        exact Placed.unread_inside member
      have same : piece'.length = piece.length :=
        wiped.length_eq fun i member => (inside i member).2
      refine ⟨piece' ++ row, .cons written (same ▸ emits), ?_, fun i member => ?_⟩
      · rw [List.flatMap_cons]
        exact wiped.append same (fun i member => (inside i member).2) wipedRest fun i member =>
          Nat.le_of_lt (behind i member)
      · rw [List.flatMap_cons, List.mem_append] at member
        rcases member with member | member
        · exact (inside i member).1
        · have later := behind i member
          omega

/-- Without an edit, the layout leaves every stop where it is. -/
theorem sends_layOut_self {code : Bytes} {row : List Placed} (decoded : decode code = .ok row)
    (o m : Nat) : (layOut row code.length).Sends o m ↔ o ∈ stops row code.length ∧ m = o := by
  have kept : List.Forall₂ Placed.Replaced row row := List.forall₂_same.mpr fun p _ => .kept p
  have standing : stops row code.length = landings row 0 := by
    have tiles := (decode_eq_ok.mp decoded).stops_eq_landings
    rwa [Nat.zero_add] at tiles
  rw [(sends_layOut decoded kept).1 o m, ← standing]
  constructor
  · intro paired
    obtain ⟨k, found⟩ := List.mem_iff_getElem?.mp paired
    obtain ⟨here, there⟩ := List.getElem?_zip_eq_some.mp found
    exact ⟨List.mem_of_getElem? here, Option.some.inj (there.symm.trans here)⟩
  · rintro ⟨stop, rfl⟩
    obtain ⟨k, found⟩ := List.mem_iff_getElem?.mp stop
    exact List.mem_of_getElem? (List.getElem?_zip_eq_some.mpr ⟨found, found⟩)

/-- Decoded code whose targets are stops is assembled again, in place: the map sends every stop
to itself and is defined nowhere else, and every byte comes back, but for zeros where decoding
passed over it. So the code comes back exactly if there were zeros. -/
theorem assemble_unedited {code : Bytes} {row : List Placed} (decoded : decode code = .ok row)
    (targets : ∀ p ∈ row, ∀ t ∈ p.instruction.targets, t ∈ stops row code.length) :
    ∃ bytes map, assemble row code.length = .ok (bytes, map) ∧
      (∀ o m, map.Sends o m ↔ o ∈ stops row code.length ∧ m = o) ∧
      (∀ i, bytes[i]? = if i ∈ row.flatMap Placed.unread then some 0 else code[i]?) ∧
      (bytes = code ↔ ∀ i ∈ row.flatMap Placed.unread, code[i]? = some 0) := by
  have sends := sends_layOut_self decoded
  have fixed : ∀ p ∈ row, ∀ t ∈ p.instruction.targets, (layOut row code.length).Sends t t :=
    fun p member t named => (sends t t).mpr ⟨targets p member t named, rfl⟩
  obtain ⟨bytes, emits, wiped, -⟩ := (decode_eq_ok.mp decoded).emits_unmoved fixed
  refine ⟨bytes, layOut row code.length, assemble_eq_ok.mpr ⟨rfl, emits⟩, sends, fun i => ?_,
    wiped.eq_iff⟩
  have here := wiped i
  rwa [Nat.zero_add] at here

/-- A switch whose padding is not zero, a jump back and a dynamic call whose last byte is not
zero: two of the bytes change. -/
theorem assemble_unedited_padded :
    let code : Bytes := [0x15, 1, 0xAA, 9, 0, 0, 0, 26, 0, 0, 0, 0, 0, 0, 0, 1, 0, 0, 0, 26,
      0, 0, 0, 31, 0x00, 0xA7, 0xFF, 0xFF, 0xBA, 0, 7, 0, 5, 0xB1]
    let row : List Placed := [⟨0, .plain 0x15 [1]⟩, ⟨2, .tableSwitch 28 0 [28, 33]⟩,
      ⟨24, .plain 0x00 []⟩, ⟨25, .branch 0xA7 24⟩, ⟨28, .dynamicCall 7⟩, ⟨33, .plain 0xB1 []⟩]
    decode code = .ok row ∧
      (∀ p ∈ row, ∀ t ∈ p.instruction.targets, t ∈ stops row code.length) ∧
      ∃ bytes map, assemble row code.length = .ok (bytes, map) ∧
        map.Sends 24 24 ∧ map.Sends 34 34 ∧
        bytes[3]? = some 0 ∧ bytes[26]? = some 0xFF ∧ bytes[32]? = some 0 ∧ bytes ≠ code := by
  intro code row
  have decoded : decode code = .ok row := by decide +kernel
  have targets : ∀ p ∈ row, ∀ t ∈ p.instruction.targets, t ∈ stops row code.length := by
    decide
  obtain ⟨bytes, map, assembled, sends, held, same⟩ := assemble_unedited decoded targets
  refine ⟨decoded, targets, bytes, map, assembled, (sends 24 24).mpr (by decide),
    (sends 34 34).mpr (by decide), ?_, ?_, ?_, fun unchanged => ?_⟩
  · rw [held]
    decide
  · rw [held]
    decide
  · rw [held]
    decide
  · exact absurd (same.mp unchanged 3 (by decide)) (by decide)

end Downlevel
