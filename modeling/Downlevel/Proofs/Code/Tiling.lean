/-
# Downlevel.Proofs.Code.Tiling — code strings as rows of instructions

`Instruction.Encoded offset instruction bytes` spells out the format of one instruction
at an offset, without reference to the decoder: the opcode, the bytes of its operands,
and what they stand for. Two things in it are free: the padding of a switch and the two
bytes after the index of a dynamic call.

`Tiles offset bytes code` says that `bytes` is a row of such instructions, the first of
them at `offset` and each further one where the one before it ends. Decoding succeeds on
exactly these byte strings and gives back the row (`decode_eq_ok`).
-/
import Downlevel.Code.Decode
import Downlevel.Proofs.Codec
import Downlevel.Proofs.Sequencing

namespace Downlevel

set_option autoImplicit false

open Sequencing

namespace Instruction

/-! ## The format of one instruction -/

/-- The displacement leads from `offset` to the code offset `target`. -/
def Reaches (offset : Nat) (displacement : Int) (target : Nat) : Prop :=
  (offset : Int) + displacement = target ∧ target < 4294967296

/-- `bytes` is the instruction as it may stand at `offset`. -/
inductive Encoded (offset : Nat) : Instruction → Bytes → Prop where
  | plain {opcode : UInt8} {operands : Bytes}
      (shape : Shape.ofOpcode? opcode = some (.plain operands.length)) :
      Encoded offset (.plain opcode operands) (opcode :: operands)
  | wide {opcode widened : UInt8} {operands : Bytes}
      (shape : Shape.ofOpcode? opcode = some .wide)
      (widens : Shape.wideOperands? widened = some (operands.length + 1)) :
      Encoded offset (.plain opcode (widened :: operands)) (opcode :: widened :: operands)
  | load {opcode index : UInt8} (shape : Shape.ofOpcode? opcode = some .load) :
      Encoded offset (.load opcode index.toUInt16) [opcode, index]
  | loadWide {opcode : UInt8} {index : UInt16} (shape : Shape.ofOpcode? opcode = some .loadWide) :
      Encoded offset (.load opcode index) (opcode :: be16 index)
  | branch {opcode : UInt8} {w : UInt16} {target : Nat}
      (shape : Shape.ofOpcode? opcode = some .branch)
      (reaches : Reaches offset (displacement16 w) target) :
      Encoded offset (.branch opcode target) (opcode :: be16 w)
  | branchFar {opcode : UInt8} {w : UInt32} {target : Nat}
      (shape : Shape.ofOpcode? opcode = some .branchFar)
      (reaches : Reaches offset (displacement32 w) target) :
      Encoded offset (.branch opcode target) (opcode :: be32 w)
  | tableSwitch {padding : Bytes} {w low high : UInt32} {words : List UInt32} {fallback : Nat}
      {targets : List Nat} (padded : padding.length = switchPadding offset)
      (count : (words.length : Int) = displacement32 high - displacement32 low + 1)
      (ordered : displacement32 low ≤ displacement32 high)
      (reachesFallback : Reaches offset (displacement32 w) fallback)
      (reaches : List.Forall₂ (fun w target => Reaches offset (displacement32 w) target) words
        targets) :
      Encoded offset (.tableSwitch fallback low.toInt32 targets)
        (Opcode.tableSwitch :: (padding ++ (be32 w ++ (be32 low ++ (be32 high ++
          words.flatMap be32)))))
  | lookupSwitch {padding : Bytes} {w count : UInt32} {words : List (UInt32 × UInt32)}
      {fallback : Nat} {pairs : List (Int32 × Nat)}
      (padded : padding.length = switchPadding offset)
      (counted : words.length = count.toNat) (signed : 0 ≤ displacement32 count)
      (reachesFallback : Reaches offset (displacement32 w) fallback)
      (reaches : List.Forall₂ (fun word pair => pair.1 = word.1.toInt32 ∧
        Reaches offset (displacement32 word.2) pair.2) words pairs) :
      Encoded offset (.lookupSwitch fallback pairs)
        (Opcode.lookupSwitch :: (padding ++ (be32 w ++ (be32 count ++
          words.flatMap fun word => be32 word.1 ++ be32 word.2))))
  | call {opcode : UInt8} {index : UInt16} (shape : Shape.ofOpcode? opcode = some .call) :
      Encoded offset (.call opcode index) (opcode :: be16 index)
  | dynamicCall {index ignored : UInt16} :
      Encoded offset (.dynamicCall index) (Opcode.invokeDynamic :: (be16 index ++ be16 ignored))

/-! ## Opcodes and shapes -/

/-- Opcodes are few enough to be tried one by one. -/
theorem forall_opcode {P : UInt8 → Prop} (each : ∀ n < 256, P (UInt8.ofNat n)) (opcode : UInt8) :
    P opcode := by
  have tried := each opcode.toNat opcode.toNat_lt
  rwa [UInt8.ofNat_toNat] at tried

theorem opcode_of_tableSwitch {opcode : UInt8}
    (shape : Shape.ofOpcode? opcode = some .tableSwitch) : opcode = Opcode.tableSwitch :=
  forall_opcode (P := fun opcode => Shape.ofOpcode? opcode = some .tableSwitch →
    opcode = Opcode.tableSwitch) (by decide +kernel) opcode shape

theorem opcode_of_lookupSwitch {opcode : UInt8}
    (shape : Shape.ofOpcode? opcode = some .lookupSwitch) : opcode = Opcode.lookupSwitch :=
  forall_opcode (P := fun opcode => Shape.ofOpcode? opcode = some .lookupSwitch →
    opcode = Opcode.lookupSwitch) (by decide +kernel) opcode shape

theorem opcode_of_dynamicCall {opcode : UInt8}
    (shape : Shape.ofOpcode? opcode = some .dynamicCall) : opcode = Opcode.invokeDynamic :=
  forall_opcode (P := fun opcode => Shape.ofOpcode? opcode = some .dynamicCall →
    opcode = Opcode.invokeDynamic) (by decide +kernel) opcode shape

/-- A constant is loaded by an 8-bit index exactly after one opcode. -/
theorem ldc_iff_load {opcode : UInt8} :
    (opcode == Opcode.ldc) = true ↔ Shape.ofOpcode? opcode = some .load :=
  forall_opcode (P := fun opcode => (opcode == Opcode.ldc) = true ↔
    Shape.ofOpcode? opcode = some .load) (by decide +kernel) opcode

/-- Branches with a 32-bit displacement are those of the far opcodes. -/
theorem isFar_iff_branchFar {opcode : UInt8} :
    Opcode.isFar opcode = true ↔ Shape.ofOpcode? opcode = some .branchFar :=
  forall_opcode (P := fun opcode => Opcode.isFar opcode = true ↔
    Shape.ofOpcode? opcode = some .branchFar) (by decide +kernel) opcode

/-- The widened opcode itself is among the bytes after the prefix. -/
theorem wideOperands?_ne_zero (widened : UInt8) : Shape.wideOperands? widened ≠ some 0 :=
  forall_opcode (P := fun opcode => Shape.wideOperands? opcode ≠ some 0) (by decide +kernel) widened

theorem not_ldc_of_loadWide {opcode : UInt8} (shape : Shape.ofOpcode? opcode = some .loadWide) :
    ¬ (opcode == Opcode.ldc) = true := by
  rw [ldc_iff_load, shape]
  decide

theorem not_isFar_of_branch {opcode : UInt8} (shape : Shape.ofOpcode? opcode = some .branch) :
    ¬ Opcode.isFar opcode = true := by
  rw [isFar_iff_branchFar, shape]
  decide

theorem size_load {opcode : UInt8} (shape : Shape.ofOpcode? opcode = some .load) (offset : Nat)
    (index : UInt16) : (load opcode index).size offset = 2 := by
  simp [size, ldc_iff_load.mpr shape]

theorem size_loadWide {opcode : UInt8} (shape : Shape.ofOpcode? opcode = some .loadWide)
    (offset : Nat) (index : UInt16) : (load opcode index).size offset = 3 := by
  simp [size, not_ldc_of_loadWide shape]

theorem size_branch {opcode : UInt8} (shape : Shape.ofOpcode? opcode = some .branch)
    (offset target : Nat) : (branch opcode target).size offset = 3 := by
  simp [size, not_isFar_of_branch shape]

theorem size_branchFar {opcode : UInt8} (shape : Shape.ofOpcode? opcode = some .branchFar)
    (offset target : Nat) : (branch opcode target).size offset = 5 := by
  simp [size, isFar_iff_branchFar.mpr shape]

/-- The size of an instruction, taken from the instruction, is the length of its bytes. -/
theorem Encoded.length {offset : Nat} {instruction : Instruction} {bytes : Bytes}
    (encoded : Encoded offset instruction bytes) : bytes.length = instruction.size offset := by
  cases encoded with
  | plain => simp [size, Nat.add_comm]
  | wide => simp [size, Nat.add_comm]
  | load shape => simp [size_load shape]
  | loadWide shape => simp [size_loadWide shape]
  | branch shape => simp [size_branch shape]
  | branchFar shape => simp [size_branchFar shape]
  | @tableSwitch padding w low high words fallback targets padded _ _ _ reaches =>
      have words32 : (words.flatMap be32).length = 4 * targets.length := by
        rw [List.length_flatMap, ← reaches.length_eq]
        simp [Nat.mul_comm]
      simp only [size, List.length_cons, List.length_append, length_be32, padded, words32]
      omega
  | @lookupSwitch padding w count words fallback pairs padded _ _ _ reaches =>
      have words64 : (words.flatMap fun word => be32 word.1 ++ be32 word.2).length =
          8 * pairs.length := by
        rw [List.length_flatMap, ← reaches.length_eq]
        simp [Nat.mul_comm]
      simp only [size, List.length_cons, List.length_append, length_be32, padded, words64]
      omega
  | call => simp [size]
  | dynamicCall => simp [size]

/-! ## Decoding one instruction -/

theorem absolute_eq_ok {offset : Nat} {displacement : Int} {target : Nat} :
    absolute offset displacement = .ok target ↔ Reaches offset displacement target := by
  unfold absolute Reaches
  simp only
  split
  · rename_i inside
    rw [Except.ok.injEq]
    omega
  · rename_i outside
    constructor
    · intro impossible
      cases impossible
    · rintro ⟨same, bound⟩
      omega

theorem operands_eq_ok {α : Type} {r : Reader α} {input : Bytes} {result : α × Bytes} :
    operands r input = .ok result ↔ r input = .ok result := by
  unfold operands
  cases r input with
  | error fault => simp
  | ok other => simp

theorem readPair_inverts :
    Reader.Inverts readPair (fun word => be32 word.1 ++ be32 word.2) fun _ => True := by
  intro input word rest
  simp only [readPair, Reader.bind_eq_ok, Reader.pure_eq_ok, Reader.u32_eq_ok]
  constructor
  · rintro ⟨key, _, rfl, displacement, _, rfl, rfl, rfl⟩
    exact ⟨trivial, by rw [List.append_assoc]⟩
  · rintro ⟨-, rfl⟩
    exact ⟨word.1, _, List.append_assoc _ _ _, word.2, rest, rfl, rfl, rfl⟩

theorem decodePlain_eq_ok {opcode : UInt8} {count : Nat} {rest : Bytes}
    {instruction : Instruction} :
    decodePlain opcode count rest = .ok instruction ↔
      ∃ bytes tail, bytes.length = count ∧ rest = bytes ++ tail ∧
        instruction = .plain opcode bytes := by
  simp only [decodePlain, bind_eq_ok, pure_eq_ok, operands_eq_ok]
  constructor
  · rintro ⟨⟨bytes, tail⟩, taken, rfl⟩
    obtain ⟨length, rfl⟩ := Reader.take_eq_ok.mp taken
    exact ⟨bytes, tail, length, rfl, rfl⟩
  · rintro ⟨bytes, tail, length, rfl, rfl⟩
    exact ⟨(bytes, tail), Reader.take_eq_ok.mpr ⟨length, rfl⟩, rfl⟩

theorem decodeWide_eq_ok {offset : Nat} {opcode : UInt8} {rest : Bytes}
    {instruction : Instruction} :
    decodeWide offset opcode rest = .ok instruction ↔
      ∃ widened bytes tail, Shape.wideOperands? widened = some (bytes.length + 1) ∧
        rest = (widened :: bytes) ++ tail ∧ instruction = .plain opcode (widened :: bytes) := by
  cases rest with
  | nil =>
      constructor
      · intro impossible
        cases impossible
      · rintro ⟨_, _, _, _, impossible, _⟩
        cases impossible
  | cons first rest =>
      simp only [decodeWide]
      constructor
      · intro decoded
        split at decoded
        · rename_i count widens
          obtain ⟨bytes, tail, rfl, same, rfl⟩ := decodePlain_eq_ok.mp decoded
          cases bytes with
          | nil => exact absurd widens (wideOperands?_ne_zero first)
          | cons widened bytes =>
              obtain ⟨rfl, rfl⟩ := List.cons.inj same
              exact ⟨first, bytes, tail, widens, rfl, rfl⟩
        · cases decoded
      · rintro ⟨widened, bytes, tail, widens, same, rfl⟩
        obtain ⟨rfl, rfl⟩ := List.cons.inj same
        simp only [widens]
        exact decodePlain_eq_ok.mpr ⟨first :: bytes, tail, rfl, rfl, rfl⟩

theorem decodeTableSwitch_eq_ok {offset : Nat} {rest : Bytes} {instruction : Instruction} :
    decodeTableSwitch offset rest = .ok instruction ↔
      ∃ (padding : Bytes) (w low high : UInt32) (words : List UInt32) (fallback : Nat)
          (targets : List Nat) (tail : Bytes),
        padding.length = switchPadding offset ∧
        (words.length : Int) = displacement32 high - displacement32 low + 1 ∧
        displacement32 low ≤ displacement32 high ∧
        Reaches offset (displacement32 w) fallback ∧
        List.Forall₂ (fun w target => Reaches offset (displacement32 w) target) words targets ∧
        rest = (padding ++ (be32 w ++ (be32 low ++ (be32 high ++ words.flatMap be32)))) ++ tail ∧
        instruction = .tableSwitch fallback low.toInt32 targets := by
  simp only [decodeTableSwitch, bind_eq_ok, operands_eq_ok, refuse_eq_ok]
  constructor
  · rintro ⟨⟨padding, _⟩, padded, ⟨w, _⟩, fallback, ⟨low, _⟩, lowest, ⟨high, _⟩, highest, ordered,
      ⟨words, tail⟩, counted, targets, reaches, reached, reachesFallback, same⟩
    obtain ⟨length, rfl⟩ := Reader.take_eq_ok.mp padded
    obtain rfl := Reader.u32_eq_ok.mp fallback
    obtain rfl := Reader.u32_eq_ok.mp lowest
    obtain rfl := Reader.u32_eq_ok.mp highest
    obtain ⟨count, -, rfl⟩ := (Reader.times_eq_ok Reader.u32_inverts).mp counted
    obtain rfl := pure_eq_ok.mp same
    have low_le_high : displacement32 low ≤ displacement32 high := by
      rw [Int32.lt_iff_toInt_lt] at ordered
      exact Int.not_lt.mp ordered
    have words_length : (words.length : Int) = displacement32 high - displacement32 low + 1 := by
      have count' : words.length = (displacement32 high - displacement32 low + 1).toNat := count
      omega
    refine ⟨padding, w, low, high, words, reached, targets, tail, length, words_length,
      low_le_high, absolute_eq_ok.mp reachesFallback, ?_, by simp only [List.append_assoc], rfl⟩
    exact (mapM_eq_ok.mp reaches).imp fun _ _ => absolute_eq_ok.mp
  · rintro ⟨padding, w, low, high, words, fallback, targets, tail, padded, count, ordered,
      reachesFallback, reaches, rfl, rfl⟩
    simp only [List.append_assoc]
    refine ⟨(padding, _), Reader.take_eq_ok.mpr ⟨padded, rfl⟩, (w, _), Reader.u32_eq_ok.mpr rfl,
      (low, _), Reader.u32_eq_ok.mpr rfl, (high, _), Reader.u32_eq_ok.mpr rfl, ?_, (words, tail),
      ?_, targets, ?_, fallback, absolute_eq_ok.mpr reachesFallback, rfl⟩
    · rw [Int32.lt_iff_toInt_lt]
      exact Int.not_lt.mpr ordered
    · apply (Reader.times_eq_ok Reader.u32_inverts).mpr
      refine ⟨?_, fun _ _ => trivial, rfl⟩
      show words.length = (displacement32 high - displacement32 low + 1).toNat
      omega
    · exact mapM_eq_ok.mpr (reaches.imp fun _ _ => absolute_eq_ok.mpr)

theorem decodeLookupSwitch_eq_ok {offset : Nat} {rest : Bytes} {instruction : Instruction} :
    decodeLookupSwitch offset rest = .ok instruction ↔
      ∃ (padding : Bytes) (w count : UInt32) (words : List (UInt32 × UInt32)) (fallback : Nat)
          (pairs : List (Int32 × Nat)) (tail : Bytes),
        padding.length = switchPadding offset ∧ words.length = count.toNat ∧
        0 ≤ displacement32 count ∧ Reaches offset (displacement32 w) fallback ∧
        List.Forall₂ (fun word pair => pair.1 = word.1.toInt32 ∧
          Reaches offset (displacement32 word.2) pair.2) words pairs ∧
        rest = (padding ++ (be32 w ++ (be32 count ++
          words.flatMap fun word => be32 word.1 ++ be32 word.2))) ++ tail ∧
        instruction = .lookupSwitch fallback pairs := by
  have pairs_iff (word : UInt32 × UInt32) (pair : Int32 × Nat) :
      (do return (word.1.toInt32, ← absolute offset (displacement32 word.2)) :
        Except Malformed (Int32 × Nat)) = .ok pair ↔
      pair.1 = word.1.toInt32 ∧ Reaches offset (displacement32 word.2) pair.2 := by
    rw [bind_eq_ok, ← absolute_eq_ok]
    constructor
    · rintro ⟨target, reaches, same⟩
      obtain rfl := pure_eq_ok.mp same
      exact ⟨rfl, reaches⟩
    · rintro ⟨key, reaches⟩
      exact ⟨pair.2, reaches, by rw [← key]; rfl⟩
  simp only [decodeLookupSwitch, bind_eq_ok, operands_eq_ok, refuse_eq_ok]
  constructor
  · rintro ⟨⟨padding, _⟩, padded, ⟨w, _⟩, fallback, ⟨count, _⟩, number, signed,
      ⟨words, tail⟩, counted, pairs, reaches, reached, reachesFallback, same⟩
    obtain ⟨length, rfl⟩ := Reader.take_eq_ok.mp padded
    obtain rfl := Reader.u32_eq_ok.mp fallback
    obtain rfl := Reader.u32_eq_ok.mp number
    obtain ⟨words_length, -, rfl⟩ := (Reader.times_eq_ok readPair_inverts).mp counted
    obtain rfl := pure_eq_ok.mp same
    have nonnegative : 0 ≤ displacement32 count := by
      rw [Int32.lt_iff_toInt_lt] at signed
      exact Int.not_lt.mp signed
    refine ⟨padding, w, count, words, reached, pairs, tail, length, words_length, nonnegative,
      absolute_eq_ok.mp reachesFallback, ?_, by simp only [List.append_assoc], rfl⟩
    exact (mapM_eq_ok.mp reaches).imp fun word pair => (pairs_iff word pair).mp
  · rintro ⟨padding, w, count, words, fallback, pairs, tail, padded, counted, signed,
      reachesFallback, reaches, rfl, rfl⟩
    simp only [List.append_assoc]
    refine ⟨(padding, _), Reader.take_eq_ok.mpr ⟨padded, rfl⟩, (w, _), Reader.u32_eq_ok.mpr rfl,
      (count, _), Reader.u32_eq_ok.mpr rfl, ?_, (words, tail), ?_, pairs, ?_, fallback,
      absolute_eq_ok.mpr reachesFallback, rfl⟩
    · rw [Int32.lt_iff_toInt_lt]
      exact Int.not_lt.mpr signed
    · exact (Reader.times_eq_ok readPair_inverts).mpr ⟨counted, fun _ _ => trivial, rfl⟩
    · exact mapM_eq_ok.mpr (reaches.imp fun word pair => (pairs_iff word pair).mpr)

/-- What is decoded by a shape is an instruction of the format. -/
theorem encoded_of_decodeShape {offset : Nat} {opcode : UInt8} {rest : Bytes} {shape : Shape}
    {instruction : Instruction} (known : Shape.ofOpcode? opcode = some shape)
    (decoded : decodeShape offset opcode rest shape = .ok instruction) :
    ∃ bytes tail, rest = bytes ++ tail ∧ Encoded offset instruction (opcode :: bytes) := by
  cases shape with
  | plain count =>
      obtain ⟨bytes, tail, rfl, rfl, rfl⟩ := decodePlain_eq_ok.mp decoded
      exact ⟨bytes, tail, rfl, .plain known⟩
  | load =>
      obtain ⟨⟨index, tail⟩, read, same⟩ := bind_eq_ok.mp decoded
      obtain rfl := Reader.u8_eq_ok.mp (operands_eq_ok.mp read)
      obtain rfl := pure_eq_ok.mp same
      exact ⟨[index], tail, rfl, .load known⟩
  | loadWide =>
      obtain ⟨⟨index, tail⟩, read, same⟩ := bind_eq_ok.mp decoded
      obtain rfl := Reader.u16_eq_ok.mp (operands_eq_ok.mp read)
      obtain rfl := pure_eq_ok.mp same
      exact ⟨be16 index, tail, rfl, .loadWide known⟩
  | branch =>
      obtain ⟨⟨w, tail⟩, read, next⟩ := bind_eq_ok.mp decoded
      obtain rfl := Reader.u16_eq_ok.mp (operands_eq_ok.mp read)
      obtain ⟨target, reaches, same⟩ := bind_eq_ok.mp next
      obtain rfl := pure_eq_ok.mp same
      exact ⟨be16 w, tail, rfl, .branch known (absolute_eq_ok.mp reaches)⟩
  | branchFar =>
      obtain ⟨⟨w, tail⟩, read, next⟩ := bind_eq_ok.mp decoded
      obtain rfl := Reader.u32_eq_ok.mp (operands_eq_ok.mp read)
      obtain ⟨target, reaches, same⟩ := bind_eq_ok.mp next
      obtain rfl := pure_eq_ok.mp same
      exact ⟨be32 w, tail, rfl, .branchFar known (absolute_eq_ok.mp reaches)⟩
  | tableSwitch =>
      obtain ⟨padding, w, low, high, words, fallback, targets, tail, padded, count, ordered,
        reachesFallback, reaches, rfl, rfl⟩ := decodeTableSwitch_eq_ok.mp decoded
      rw [opcode_of_tableSwitch known]
      exact ⟨_, tail, rfl, .tableSwitch padded count ordered reachesFallback reaches⟩
  | lookupSwitch =>
      obtain ⟨padding, w, count, words, fallback, pairs, tail, padded, counted, signed,
        reachesFallback, reaches, rfl, rfl⟩ := decodeLookupSwitch_eq_ok.mp decoded
      rw [opcode_of_lookupSwitch known]
      exact ⟨_, tail, rfl, .lookupSwitch padded counted signed reachesFallback reaches⟩
  | call =>
      obtain ⟨⟨index, tail⟩, read, same⟩ := bind_eq_ok.mp decoded
      obtain rfl := Reader.u16_eq_ok.mp (operands_eq_ok.mp read)
      obtain rfl := pure_eq_ok.mp same
      exact ⟨be16 index, tail, rfl, .call known⟩
  | dynamicCall =>
      obtain ⟨⟨index, middle⟩, read, next⟩ := bind_eq_ok.mp decoded
      obtain rfl := Reader.u16_eq_ok.mp (operands_eq_ok.mp read)
      obtain ⟨⟨ignored, tail⟩, skipped, same⟩ := bind_eq_ok.mp next
      obtain rfl := Reader.u16_eq_ok.mp (operands_eq_ok.mp skipped)
      obtain rfl := pure_eq_ok.mp same
      rw [opcode_of_dynamicCall known]
      exact ⟨be16 index ++ be16 ignored, tail, (List.append_assoc _ _ _).symm, .dynamicCall⟩
  | wide =>
      obtain ⟨widened, bytes, tail, widens, rfl, rfl⟩ := decodeWide_eq_ok.mp decoded
      exact ⟨widened :: bytes, tail, rfl, .wide known widens⟩

/-- An instruction of the format is decoded, whatever follows it. -/
theorem decodeAt_of_encoded {offset : Nat} {opcode : UInt8} {bytes : Bytes}
    {instruction : Instruction} (encoded : Encoded offset instruction (opcode :: bytes))
    (tail : Bytes) : decodeAt offset opcode (bytes ++ tail) = .ok instruction := by
  unfold decodeAt
  cases encoded with
  | plain shape =>
      simp only [shape]
      exact decodePlain_eq_ok.mpr ⟨bytes, tail, rfl, rfl, rfl⟩
  | wide shape widens =>
      simp only [shape]
      exact decodeWide_eq_ok.mpr ⟨_, _, tail, widens, rfl, rfl⟩
  | load shape =>
      simp only [shape]
      rfl
  | @loadWide _ index shape =>
      simp only [shape]
      exact bind_eq_ok.mpr ⟨(index, tail), operands_eq_ok.mpr (Reader.u16_eq_ok.mpr rfl), rfl⟩
  | @branch _ w target shape reaches =>
      simp only [shape]
      refine bind_eq_ok.mpr ⟨(w, tail), operands_eq_ok.mpr (Reader.u16_eq_ok.mpr rfl), ?_⟩
      exact bind_eq_ok.mpr ⟨target, absolute_eq_ok.mpr reaches, rfl⟩
  | @branchFar _ w target shape reaches =>
      simp only [shape]
      refine bind_eq_ok.mpr ⟨(w, tail), operands_eq_ok.mpr (Reader.u32_eq_ok.mpr rfl), ?_⟩
      exact bind_eq_ok.mpr ⟨target, absolute_eq_ok.mpr reaches, rfl⟩
  | tableSwitch padded count ordered reachesFallback reaches =>
      exact decodeTableSwitch_eq_ok.mpr ⟨_, _, _, _, _, _, _, tail, padded, count, ordered,
        reachesFallback, reaches, rfl, rfl⟩
  | lookupSwitch padded counted signed reachesFallback reaches =>
      exact decodeLookupSwitch_eq_ok.mpr ⟨_, _, _, _, _, _, tail, padded, counted, signed,
        reachesFallback, reaches, rfl, rfl⟩
  | @call _ index shape =>
      simp only [shape]
      exact bind_eq_ok.mpr ⟨(index, tail), operands_eq_ok.mpr (Reader.u16_eq_ok.mpr rfl), rfl⟩
  | @dynamicCall index ignored =>
      refine bind_eq_ok.mpr ⟨(index, be16 ignored ++ tail), operands_eq_ok.mpr
        (Reader.u16_eq_ok.mpr (List.append_assoc _ _ _)), ?_⟩
      exact bind_eq_ok.mpr
        ⟨(ignored, tail), operands_eq_ok.mpr (Reader.u16_eq_ok.mpr rfl), rfl⟩

/-- Decoding at an offset succeeds exactly in front of an instruction of the format. -/
theorem decodeAt_eq_ok {offset : Nat} {opcode : UInt8} {rest : Bytes}
    {instruction : Instruction} :
    decodeAt offset opcode rest = .ok instruction ↔
      ∃ bytes tail, rest = bytes ++ tail ∧ Encoded offset instruction (opcode :: bytes) := by
  constructor
  · intro decoded
    unfold decodeAt at decoded
    split at decoded
    · rename_i shape known
      exact encoded_of_decodeShape known decoded
    · cases decoded
  · rintro ⟨bytes, tail, rfl, encoded⟩
    exact decodeAt_of_encoded encoded tail

/-- An instruction has an opcode. -/
theorem Encoded.ne_nil {offset : Nat} {instruction : Instruction} {bytes : Bytes}
    (encoded : Encoded offset instruction bytes) : bytes ≠ [] := by
  cases encoded <;> exact List.cons_ne_nil _ _

theorem Encoded.length_pos {offset : Nat} {instruction : Instruction} {bytes : Bytes}
    (encoded : Encoded offset instruction bytes) : 0 < bytes.length :=
  List.length_pos_iff.mpr encoded.ne_nil

end Instruction

/-! ## Rows of instructions -/

/-- `bytes` is the row of the instructions `code`, the first of them at `offset`. -/
inductive Tiles : Nat → Bytes → List Placed → Prop where
  | nil (offset : Nat) : Tiles offset [] []
  | cons {offset : Nat} {instruction : Instruction} {piece rest : Bytes} {code : List Placed}
      (encoded : instruction.Encoded offset piece) (tiles : Tiles (offset + piece.length) rest code) :
      Tiles offset (piece ++ rest) (⟨offset, instruction⟩ :: code)

/-- Passing over bytes inside an instruction changes nothing but the position. -/
theorem decodeOnto_skip (skipped rest : Bytes) (offset : Nat) (decoded : List Placed) :
    decodeOnto skipped.length offset decoded (skipped ++ rest) =
      decodeOnto 0 (offset + skipped.length) decoded rest := by
  induction skipped generalizing offset with
  | nil => rfl
  | cons b skipped ih =>
      rw [List.length_cons, List.cons_append, decodeOnto, ih]
      congr 1
      omega

/-- One round of the decoder: an instruction, and the rest behind it. -/
theorem decodeOnto_piece {offset : Nat} {instruction : Instruction} {piece : Bytes}
    (encoded : instruction.Encoded offset piece) (decoded : List Placed) (rest : Bytes) :
    decodeOnto 0 offset decoded (piece ++ rest) =
      decodeOnto 0 (offset + piece.length) (⟨offset, instruction⟩ :: decoded) rest := by
  have length := encoded.length
  cases piece with
  | nil => exact absurd rfl encoded.ne_nil
  | cons opcode operands =>
      rw [List.cons_append, decodeOnto]
      rw [Instruction.decodeAt_eq_ok.mpr ⟨operands, rest, rfl, encoded⟩]
      simp only
      have remaining : instruction.size offset - 1 = operands.length := by
        rw [← length, List.length_cons]
        omega
      rw [remaining, decodeOnto_skip]
      congr 1
      rw [List.length_cons]
      omega

theorem decodeOnto_eq_ok {offset : Nat} {decoded code : List Placed} {bytes : Bytes} :
    decodeOnto 0 offset decoded bytes = .ok code ↔
      ∃ more, Tiles offset bytes more ∧ code = decoded.reverse ++ more := by
  constructor
  · intro ok
    -- Each instruction takes at least its opcode, so the bytes that are left grow fewer.
    induction length : bytes.length using Nat.strongRecOn generalizing offset decoded bytes with
    | _ n ih =>
        cases bytes with
        | nil =>
            rw [decodeOnto] at ok
            cases ok
            exact ⟨[], .nil offset, (List.append_nil _).symm⟩
        | cons opcode rest =>
            cases first : Instruction.decodeAt offset opcode rest with
            | error e =>
                rw [decodeOnto, first] at ok
                cases ok
            | ok instruction =>
                obtain ⟨operands, tail, rfl, encoded⟩ := Instruction.decodeAt_eq_ok.mp first
                rw [← List.cons_append, decodeOnto_piece encoded] at ok
                have shorter : tail.length < n := by
                  rw [← length, List.length_cons, List.length_append]
                  omega
                obtain ⟨more, tiles, rfl⟩ := ih tail.length shorter ok rfl
                refine ⟨⟨offset, instruction⟩ :: more, .cons encoded tiles, ?_⟩
                rw [List.reverse_cons, List.append_assoc]
                rfl
  · rintro ⟨more, tiles, rfl⟩
    induction tiles generalizing decoded with
    | nil offset =>
        rw [decodeOnto, List.append_nil]
    | cons encoded _ ih =>
        rw [decodeOnto_piece encoded, ih, List.reverse_cons, List.append_assoc]
        rfl

/-- Decoding succeeds exactly on rows of instructions, and gives back the row. -/
theorem decode_eq_ok {bytes : Bytes} {code : List Placed} :
    decode bytes = .ok code ↔ Tiles 0 bytes code := by
  unfold decode
  rw [decodeOnto_eq_ok]
  constructor
  · rintro ⟨more, tiles, rfl⟩
    exact tiles
  · intro tiles
    exact ⟨code, tiles, rfl⟩

end Downlevel
