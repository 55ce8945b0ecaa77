/-
# Downlevel.Proofs.Code.Reassembly — assembling is a relabelling

`Instruction.Relabels R` relates two instructions that are the same except for their
targets, which `R` relates in their order. When a list of instructions is encoded under an
offset map, each of them becomes the format of a relabelled one at its new place
(`Placed.encoded_of_encode`), so the bytes decode again, to the list with every offset and
every target sent through the map (`decode_assemble`).

The two passes of the assembler, sizes first and bytes second, meet in the landings of the
layout: an instruction that is encoded at its landing is as long as its size there.
-/
import Downlevel.Code.Assemble
import Downlevel.Proofs.Code.Layout

namespace Downlevel

set_option autoImplicit false

open Sequencing

namespace Instruction

/-! ## Relabelling -/

/-- The same instruction but for its targets, which `R` relates one by one. -/
inductive Relabels (R : Nat → Nat → Prop) : Instruction → Instruction → Prop where
  | plain (opcode : UInt8) (operands : Bytes) :
      Relabels R (.plain opcode operands) (.plain opcode operands)
  | load (opcode : UInt8) (index : UInt16) : Relabels R (.load opcode index) (.load opcode index)
  | branch (opcode : UInt8) {target moved : Nat} (sends : R target moved) :
      Relabels R (.branch opcode target) (.branch opcode moved)
  | tableSwitch {fallback movedFallback : Nat} (low : Int32) {targets moved : List Nat}
      (sendsFallback : R fallback movedFallback) (sends : List.Forall₂ R targets moved) :
      Relabels R (.tableSwitch fallback low targets) (.tableSwitch movedFallback low moved)
  | lookupSwitch {fallback movedFallback : Nat} {pairs moved : List (Int32 × Nat)}
      (sendsFallback : R fallback movedFallback)
      (sends : List.Forall₂ (fun pair other => other.1 = pair.1 ∧ R pair.2 other.2) pairs moved) :
      Relabels R (.lookupSwitch fallback pairs) (.lookupSwitch movedFallback moved)
  | call (opcode : UInt8) (index : UInt16) : Relabels R (.call opcode index) (.call opcode index)
  | dynamicCall (index : UInt16) : Relabels R (.dynamicCall index) (.dynamicCall index)

theorem Relabels.imp {R S : Nat → Nat → Prop} (wider : ∀ o m, R o m → S o m)
    {instruction moved : Instruction} (relabels : Relabels R instruction moved) :
    Relabels S instruction moved := by
  cases relabels with
  | plain => exact .plain _ _
  | load => exact .load _ _
  | branch _ sends => exact .branch _ (wider _ _ sends)
  | tableSwitch _ sendsFallback sends =>
      exact .tableSwitch _ (wider _ _ sendsFallback) (sends.imp wider)
  | lookupSwitch sendsFallback sends =>
      refine .lookupSwitch (wider _ _ sendsFallback) (sends.imp ?_)
      rintro pair other ⟨key, target⟩
      exact ⟨key, wider _ _ target⟩
  | call => exact .call _ _
  | dynamicCall => exact .dynamicCall _

/-- Relabelling does not change how long an instruction is. -/
theorem Relabels.size_eq {R : Nat → Nat → Prop} {instruction moved : Instruction}
    (relabels : Relabels R instruction moved) (position : Nat) :
    moved.size position = instruction.size position := by
  cases relabels with
  | tableSwitch _ _ sends => rw [size, size, sends.length_eq]
  | lookupSwitch _ sends => rw [size, size, sends.length_eq]
  | plain => rfl
  | load => rfl
  | branch => rfl
  | call => rfl
  | dynamicCall => rfl

/-- The code offsets that an instruction names. -/
def targets : Instruction → List Nat
  | branch _ target => [target]
  | tableSwitch fallback _ targets => fallback :: targets
  | lookupSwitch fallback pairs => fallback :: pairs.map Prod.snd
  | _ => []

/-- Decoded targets fit 32 bits. -/
theorem Encodable.targets_lt {instruction : Instruction} (encodable : instruction.Encodable) :
    ∀ target ∈ instruction.targets, target < 4294967296 := by
  obtain ⟨offset, bytes, encoded⟩ := encodable
  intro target member
  cases encoded with
  | branch _ reaches =>
      rw [List.mem_singleton.mp member]
      exact reaches.2
  | branchFar _ reaches =>
      rw [List.mem_singleton.mp member]
      exact reaches.2
  | tableSwitch _ _ _ reachesFallback reaches =>
      rcases List.mem_cons.mp member with rfl | member
      · exact reachesFallback.2
      · obtain ⟨w, _, reached⟩ := round_of_mem reaches member
        exact reached.2
  | lookupSwitch _ _ _ reachesFallback reaches =>
      rcases List.mem_cons.mp member with rfl | member
      · exact reachesFallback.2
      · obtain ⟨pair, found, rfl⟩ := List.mem_map.mp member
        obtain ⟨word, _, reached⟩ := round_of_mem reaches found
        exact reached.2.2
  | plain => exact absurd member List.not_mem_nil
  | wide => exact absurd member List.not_mem_nil
  | load => exact absurd member List.not_mem_nil
  | loadWide => exact absurd member List.not_mem_nil
  | call => exact absurd member List.not_mem_nil
  | dynamicCall => exact absurd member List.not_mem_nil

end Instruction

/-! ## Encoding one instruction -/

/-- The map sends the old offset to the new one. -/
def OffsetMap.Sends (map : OffsetMap) (old new : Nat) : Prop :=
  map.find? old = some new

/-- The map sends no offset towards the end. -/
def OffsetMap.Shrinks (map : OffsetMap) : Prop :=
  ∀ old new, map.Sends old new → new ≤ old

theorem OffsetMap.find_eq_ok {map : OffsetMap} {old new : Nat} :
    map.find old = .ok new ↔ map.Sends old new := by
  unfold OffsetMap.find OffsetMap.Sends
  cases map.find? old with
  | none => simp
  | some moved => simp

/-- An offset of 16 bits that does not move towards the end still fits 16 bits. -/
theorem OffsetMap.Shrinks.find16_eq_ok {map : OffsetMap} (shrinks : map.Shrinks)
    {old new : UInt16} : map.find16 old = .ok new ↔ map.Sends old.toNat new.toNat := by
  have bound := old.toNat_lt
  unfold OffsetMap.find16
  rw [bind_eq_ok]
  constructor
  · rintro ⟨moved, found, same⟩
    have sends := OffsetMap.find_eq_ok.mp found
    have shorter := shrinks _ _ sends
    rwa [← pure_eq_ok.mp same, UInt16.toNat_ofNat', Nat.mod_eq_of_lt (by omega)]
  · intro sends
    exact ⟨new.toNat, OffsetMap.find_eq_ok.mpr sends, by rw [UInt16.ofNat_toNat]; rfl⟩

namespace Placed

theorem distance_eq_ok {map : OffsetMap} {position target : Nat} {d : Int} :
    distance map position target = .ok d ↔
      ∃ moved, map.Sends target moved ∧ d = (moved : Int) - position := by
  unfold distance
  cases found : map.find target with
  | error e =>
      constructor
      · intro impossible
        cases impossible
      · rintro ⟨moved, sends, _⟩
        rw [OffsetMap.find_eq_ok.mpr sends] at found
        cases found
  | ok moved =>
      constructor
      · intro same
        cases same
        exact ⟨moved, OffsetMap.find_eq_ok.mp found, rfl⟩
      · rintro ⟨other, sends, rfl⟩
        rw [OffsetMap.find_eq_ok.mpr sends] at found
        cases found
        rfl

/-- A 16-bit displacement that is written leads to where its target went. -/
theorem reaches_of_near {map : OffsetMap} {position offset target : Nat} {bytes : Bytes}
    (shrinks : map.Shrinks) (small : target < 4294967296)
    (ok : near map position offset target = .ok bytes) :
    ∃ moved w, map.Sends target moved ∧ bytes = be16 w ∧
      Instruction.Reaches position (Instruction.displacement16 w) moved := by
  obtain ⟨d, measured, ok⟩ := bind_eq_ok.mp ok
  obtain ⟨moved, sends, rfl⟩ := distance_eq_ok.mp measured
  split at ok
  · rename_i fits
    refine ⟨moved, _, sends, (pure_eq_ok.mp ok).symm, ?_, ?_⟩
    · have back : (Int16.ofInt ((moved : Int) - position)).toInt = (moved : Int) - position :=
        Int16.toInt_ofInt_of_le (by exact fits.1) (by exact fits.2)
      rw [Instruction.displacement16, Int16.toInt16_toUInt16, back]
      omega
    · exact Nat.lt_of_le_of_lt (shrinks _ _ sends) small
  · cases ok

/-- A 32-bit displacement that is written leads to where its target went. -/
theorem reaches_of_far {map : OffsetMap} {position offset target : Nat} {bytes : Bytes}
    (shrinks : map.Shrinks) (small : target < 4294967296)
    (ok : far map position offset target = .ok bytes) :
    ∃ moved w, map.Sends target moved ∧ bytes = be32 w ∧
      Instruction.Reaches position (Instruction.displacement32 w) moved := by
  obtain ⟨d, measured, ok⟩ := bind_eq_ok.mp ok
  obtain ⟨moved, sends, rfl⟩ := distance_eq_ok.mp measured
  split at ok
  · rename_i fits
    refine ⟨moved, _, sends, (pure_eq_ok.mp ok).symm, ?_, ?_⟩
    · have back : (Int32.ofInt ((moved : Int) - position)).toInt = (moved : Int) - position :=
        Int32.toInt_ofInt_of_le (by exact fits.1) (by exact fits.2)
      rw [Instruction.displacement32, Int32.toInt32_toUInt32, back]
      omega
    · exact Nat.lt_of_le_of_lt (shrinks _ _ sends) small
  · cases ok

/-- The displacements of a table switch, one word for each target. -/
theorem reaches_of_targets {map : OffsetMap} {position offset : Nat} {targets : List Nat}
    {pieces : List Bytes} (shrinks : map.Shrinks) (small : ∀ t ∈ targets, t < 4294967296)
    (ok : List.Forall₂ (fun t piece => far map position offset t = .ok piece) targets pieces) :
    ∃ moved words, List.Forall₂ map.Sends targets moved ∧ pieces.flatten = words.flatMap be32 ∧
      List.Forall₂ (fun w m =>
        Instruction.Reaches position (Instruction.displacement32 w) m) words moved := by
  induction ok with
  | nil => exact ⟨[], [], .nil, rfl, .nil⟩
  | @cons target piece targets pieces first _ ih =>
      obtain ⟨m, w, sends, rfl, reaches⟩ :=
        reaches_of_far shrinks (small target List.mem_cons_self) first
      obtain ⟨moved, words, sendsRest, written, reachesRest⟩ :=
        ih fun t member => small t (List.mem_cons_of_mem _ member)
      refine ⟨m :: moved, w :: words, .cons sends sendsRest, ?_, .cons reaches reachesRest⟩
      rw [List.flatten_cons, List.flatMap_cons, written]

/-- The rows of a lookup switch, a key and a displacement each. -/
theorem reaches_of_pairs {map : OffsetMap} {position offset : Nat} {pairs : List (Int32 × Nat)}
    {pieces : List Bytes} (shrinks : map.Shrinks) (small : ∀ p ∈ pairs, p.2 < 4294967296)
    (ok : List.Forall₂ (fun p piece => (do
      return be32 p.1.toUInt32 ++ (← far map position offset p.2)) = Except.ok piece) pairs pieces) :
    ∃ (moved : List (Int32 × Nat)) (words : List (UInt32 × UInt32)),
      List.Forall₂ (fun pair other => other.1 = pair.1 ∧ map.Sends pair.2 other.2) pairs moved ∧
      (pieces.flatten = words.flatMap fun word => be32 word.1 ++ be32 word.2) ∧
      List.Forall₂ (fun word pair => pair.1 = word.1.toInt32 ∧
        Instruction.Reaches position (Instruction.displacement32 word.2) pair.2) words moved := by
  induction ok with
  | nil => exact ⟨[], [], .nil, rfl, .nil⟩
  | @cons pair piece pairs pieces first _ ih =>
      obtain ⟨written, ok, same⟩ := bind_eq_ok.mp first
      obtain ⟨m, w, sends, rfl, reaches⟩ :=
        reaches_of_far shrinks (small pair List.mem_cons_self) ok
      obtain ⟨moved, words, sendsRest, writtenRest, reachesRest⟩ :=
        ih fun p member => small p (List.mem_cons_of_mem _ member)
      refine ⟨(pair.1, m) :: moved, (pair.1.toUInt32, w) :: words, .cons ⟨rfl, sends⟩ sendsRest,
        ?_, .cons ⟨(Int32.toInt32_toUInt32 _).symm, reaches⟩ reachesRest⟩
      rw [List.flatten_cons, List.flatMap_cons, writtenRest, pure_eq_ok.mp same]

/-- The largest key of a table switch is that of its last row. -/
theorem displacement_high {low high : UInt32} {count : Nat}
    (counted : (count : Int) =
      Instruction.displacement32 high - Instruction.displacement32 low + 1) :
    Placed.high low.toInt32 count = high.toInt32 := by
  unfold Placed.high
  rw [counted]
  unfold Instruction.displacement32
  rw [show low.toInt32.toInt + (high.toInt32.toInt - low.toInt32.toInt + 1) - 1
    = high.toInt32.toInt by omega]
  exact Int32.ofInt_toInt _

/-- The bytes an instruction is encoded to are the format, at its new place, of the
instruction with its targets sent through the map. -/
theorem encoded_of_encode {map : OffsetMap} {position : Nat} {p : Placed} {bytes : Bytes}
    (shrinks : map.Shrinks) (encodable : p.instruction.Encodable)
    (ok : p.encode map position = .ok bytes) :
    ∃ moved, p.instruction.Relabels map.Sends moved ∧ moved.Encoded position bytes := by
  have small := encodable.targets_lt
  obtain ⟨start, old, encoded⟩ := encodable
  obtain ⟨offset, instruction⟩ := p
  unfold encode at ok
  cases encoded with
  | plain shape =>
      obtain rfl := pure_eq_ok.mp ok
      exact ⟨_, .plain _ _, .plain shape⟩
  | wide shape widens =>
      obtain rfl := pure_eq_ok.mp ok
      exact ⟨_, .plain _ _, .wide shape widens⟩
  | @load opcode index shape =>
      obtain rfl := pure_eq_ok.mp ok
      rw [if_pos (Instruction.ldc_iff_load.mpr shape), UInt8.toUInt8_toUInt16]
      exact ⟨_, .load _ _, .load shape⟩
  | @loadWide opcode index shape =>
      obtain rfl := pure_eq_ok.mp ok
      rw [if_neg (Instruction.not_ldc_of_loadWide shape)]
      exact ⟨_, .load _ _, .loadWide shape⟩
  | @branch opcode w target shape reaches =>
      simp only [Instruction.not_isFar_of_branch shape] at ok
      obtain ⟨piece, written, same⟩ := bind_eq_ok.mp ok
      obtain rfl := pure_eq_ok.mp same
      obtain ⟨moved, w, sends, rfl, reaches⟩ :=
        reaches_of_near shrinks (small target List.mem_cons_self) written
      exact ⟨_, .branch _ sends, .branch shape reaches⟩
  | @branchFar opcode w target shape reaches =>
      simp only [Instruction.isFar_iff_branchFar.mpr shape] at ok
      obtain ⟨piece, written, same⟩ := bind_eq_ok.mp ok
      obtain rfl := pure_eq_ok.mp same
      obtain ⟨moved, w, sends, rfl, reaches⟩ :=
        reaches_of_far shrinks (small target List.mem_cons_self) written
      exact ⟨_, .branch _ sends, .branchFar shape reaches⟩
  | @tableSwitch _ _ low high words fallback targets _ count ordered _ reaches =>
      obtain ⟨first, writtenFirst, ok⟩ := bind_eq_ok.mp ok
      obtain ⟨others, written, same⟩ := bind_eq_ok.mp ok
      obtain rfl := pure_eq_ok.mp same
      obtain ⟨movedFallback, w, sendsFallback, rfl, reachesFallback⟩ :=
        reaches_of_far shrinks (small fallback List.mem_cons_self) writtenFirst
      obtain ⟨moved, words', sends, rows, reaches'⟩ := reaches_of_targets shrinks
        (fun t member => small t (List.mem_cons_of_mem _ member)) (mapM_eq_ok.mp written)
      have counted : (words'.length : Int) =
          Instruction.displacement32 high - Instruction.displacement32 low + 1 := by
        rw [reaches'.length_eq, ← sends.length_eq, ← reaches.length_eq, count]
      rw [rows, ← reaches.length_eq, displacement_high count]
      refine ⟨_, .tableSwitch _ sendsFallback sends, ?_⟩
      exact .tableSwitch (List.length_replicate ..) counted ordered reachesFallback reaches'
  | @lookupSwitch _ _ count words fallback pairs _ counted signed _ reaches =>
      obtain ⟨first, writtenFirst, ok⟩ := bind_eq_ok.mp ok
      obtain ⟨others, written, same⟩ := bind_eq_ok.mp ok
      obtain rfl := pure_eq_ok.mp same
      obtain ⟨movedFallback, w, sendsFallback, rfl, reachesFallback⟩ :=
        reaches_of_far shrinks (small fallback List.mem_cons_self) writtenFirst
      obtain ⟨moved, words', sends, rows, reaches'⟩ := reaches_of_pairs shrinks
        (fun p member => small p.2 (List.mem_cons_of_mem _ (List.mem_map_of_mem member)))
        (mapM_eq_ok.mp written)
      have stored : UInt32.ofNat pairs.length = count := by
        rw [← reaches.length_eq, counted, UInt32.ofNat_toNat]
      have counted' : words'.length = count.toNat := by
        rw [reaches'.length_eq, ← sends.length_eq, ← reaches.length_eq, counted]
      rw [rows, stored]
      refine ⟨_, .lookupSwitch sendsFallback sends, ?_⟩
      exact .lookupSwitch (List.length_replicate ..) counted' signed reachesFallback reaches'
  | call shape =>
      obtain rfl := pure_eq_ok.mp ok
      exact ⟨_, .call _ _, .call shape⟩
  | dynamicCall =>
      obtain rfl := pure_eq_ok.mp ok
      exact ⟨_, .dynamicCall _, @Instruction.Encoded.dynamicCall position _ 0⟩

/-- The instruction with its offset and its targets sent through the map. -/
def Moves (map : OffsetMap) (p q : Placed) : Prop :=
  map.Sends p.offset q.offset ∧ p.instruction.Relabels map.Sends q.instruction

/-- An instruction is encoded to as many bytes as its size at that place says. -/
theorem length_of_encode {map : OffsetMap} {position : Nat} {p : Placed} {bytes : Bytes}
    (shrinks : map.Shrinks) (encodable : p.instruction.Encodable)
    (ok : p.encode map position = .ok bytes) :
    bytes.length = p.instruction.size position := by
  obtain ⟨moved, relabels, encoded⟩ := encoded_of_encode shrinks encodable ok
  rw [encoded.length, relabels.size_eq]

end Placed

/-! ## Encoding a row -/

/-- The bytes of a list of instructions, piece by piece from `position` on. -/
inductive Emits (map : OffsetMap) : Nat → List Placed → Bytes → Prop where
  | nil (position : Nat) : Emits map position [] []
  | cons {position : Nat} {p : Placed} {code : List Placed} {piece rest : Bytes}
      (first : p.encode map position = .ok piece)
      (others : Emits map (position + piece.length) code rest) :
      Emits map position (p :: code) (piece ++ rest)

theorem encodeOnto_eq_ok {map : OffsetMap} {position : Nat} {pieces : List Bytes}
    {code : List Placed} {bytes : Bytes} :
    encodeOnto map position pieces code = .ok bytes ↔
      ∃ row, Emits map position code row ∧ bytes = pieces.reverse.flatten ++ row := by
  induction code generalizing position pieces with
  | nil =>
      rw [encodeOnto]
      constructor
      · intro same
        cases same
        exact ⟨[], .nil position, (List.append_nil _).symm⟩
      · rintro ⟨row, emits, rfl⟩
        cases emits
        rw [List.append_nil]
  | cons p code ih =>
      rw [encodeOnto]
      cases encoded : p.encode map position with
      | error e =>
          constructor
          · intro impossible
            cases impossible
          · rintro ⟨row, emits, _⟩
            cases emits with
            | cons first _ =>
                rw [encoded] at first
                cases first
      | ok piece =>
          have flat (row : Bytes) : (piece :: pieces).reverse.flatten ++ row =
              pieces.reverse.flatten ++ (piece ++ row) := by
            simp
          simp only [ih, flat]
          constructor
          · rintro ⟨row, emits, rfl⟩
            exact ⟨piece ++ row, .cons encoded emits, rfl⟩
          · rintro ⟨row, emits, rfl⟩
            cases emits with
            | cons first others =>
                rw [encoded] at first
                cases first
                exact ⟨_, others, rfl⟩

theorem assemble_eq_ok {code : List Placed} {length : Nat} {bytes : Bytes} {map : OffsetMap} :
    assemble code length = .ok (bytes, map) ↔ map = layOut code length ∧ Emits map 0 code bytes := by
  unfold assemble
  constructor
  · intro ok
    cases encoded : encodeOnto (layOut code length) 0 [] code with
    | error e =>
        simp only [encoded] at ok
        cases ok
    | ok row =>
        simp only [encoded] at ok
        cases ok
        obtain ⟨row, emits, rfl⟩ := encodeOnto_eq_ok.mp encoded
        exact ⟨rfl, emits⟩
  · rintro ⟨rfl, emits⟩
    simp only [encodeOnto_eq_ok.mpr ⟨bytes, emits, rfl⟩]
    rfl

/-- Emitted pieces stand at the landings, one after the other. -/
theorem Emits.tiles {map : OffsetMap} {position length : Nat} {code : List Placed} {row : Bytes}
    (emits : Emits map position code row) (shrinks : map.Shrinks)
    (encodable : ∀ p ∈ code, p.instruction.Encodable)
    (lands : ∀ o m, (o, m) ∈ (stops code length).zip (landings code position) → map.Sends o m) :
    map.Sends length (position + row.length) ∧
      ∃ moved, List.Forall₂ (Placed.Moves map) code moved ∧ Tiles position row moved := by
  induction emits with
  | nil position => exact ⟨lands _ _ List.mem_cons_self, [], .nil, .nil position⟩
  | @cons position p code piece rest first others ih =>
      have member : p.instruction.Encodable := encodable p List.mem_cons_self
      obtain ⟨instruction, relabels, encoded⟩ := Placed.encoded_of_encode shrinks member first
      have size := Placed.length_of_encode shrinks member first
      rw [stops_cons, landings, List.zip_cons_cons, ← size] at lands
      obtain ⟨ending, moved, moves, tiles⟩ :=
        ih (fun q member => encodable q (List.mem_cons_of_mem _ member))
          (fun o m member => lands o m (List.mem_cons_of_mem _ member))
      refine ⟨?_, ⟨position, instruction⟩ :: moved, .cons ⟨?_, relabels⟩ moves,
        .cons encoded tiles⟩
      · rw [List.length_append, ← Nat.add_assoc]
        exact ending
      · exact lands _ _ List.mem_cons_self

/-- Each instruction's bytes start at its landing. -/
theorem Emits.piece {map : OffsetMap} {position length : Nat} {code : List Placed} {row : Bytes}
    (emits : Emits map position code row) (shrinks : map.Shrinks)
    (encodable : ∀ p ∈ code, p.instruction.Encodable)
    (lands : ∀ o m, (o, m) ∈ (stops code length).zip (landings code position) → map.Sends o m) :
    ∀ p ∈ code, ∃ before piece after, row = before ++ (piece ++ after) ∧
      map.Sends p.offset (position + before.length) ∧
      p.encode map (position + before.length) = .ok piece ∧
      piece.length = p.instruction.size (position + before.length) := by
  induction emits with
  | nil position => exact fun p member => absurd member List.not_mem_nil
  | @cons position p code piece rest first others ih =>
      have size := Placed.length_of_encode shrinks (encodable p List.mem_cons_self) first
      rw [stops_cons, landings, List.zip_cons_cons, ← size] at lands
      intro q member
      rcases List.mem_cons.mp member with rfl | member
      · exact ⟨[], piece, rest, rfl, lands _ _ List.mem_cons_self, first, size⟩
      · obtain ⟨before, piece', after, rfl, sends, encoded, sized⟩ :=
          ih (fun q member => encodable q (List.mem_cons_of_mem _ member))
            (fun o m member => lands o m (List.mem_cons_of_mem _ member)) q member
        have start : position + (piece ++ before).length =
            position + piece.length + before.length := by
          rw [List.length_append]
          omega
        refine ⟨piece ++ before, piece', after, (List.append_assoc _ _ _).symm, ?_⟩
        rw [start]
        exact ⟨sends, encoded, sized⟩

/-! ## The assembler -/

/-- The layout after replacing calls: which offset goes where, and never towards the end. -/
theorem sends_layOut {code : Bytes} {before after : List Placed}
    (decoded : decode code = .ok before)
    (replaced : List.Forall₂ Placed.Replaced before after) :
    (∀ o m, (layOut after code.length).Sends o m ↔
      (o, m) ∈ (stops after code.length).zip (landings after 0)) ∧
    (layOut after code.length).Shrinks := by
  have tiles := decode_eq_ok.mp decoded
  have ordered : (stops after code.length).Pairwise (· < ·) := by
    rw [stops_of_replaced code.length replaced, ← Nat.zero_add code.length]
    exact tiles.stops_ordered.2
  have lands (o m : Nat) : (layOut after code.length).Sends o m ↔
      (o, m) ∈ (stops after code.length).zip (landings after 0) := layOut_find? ordered
  refine ⟨lands, fun old new sends => ?_⟩
  have member := (lands old new).mp sends
  rw [← Nat.zero_add code.length] at member
  exact landings_le tiles replaced (Nat.le_refl 0) old new member

/-- The map is defined exactly at the stops of the code, keeps their order, and sends none of
them towards the end. -/
structure OffsetMap.Carries (map : OffsetMap) (code : List Placed) (length : Nat) : Prop where
  defined : ∀ o, (∃ m, map.Sends o m) ↔ o ∈ stops code length
  within : ∀ o m, map.Sends o m → o ≤ length
  ordered : ∀ {o o' m m' : Nat}, map.Sends o m → map.Sends o' m' → (o < o' ↔ m < m')
  shrinks : map.Shrinks

/-- The layout after replacing calls carries the stops of the code. -/
theorem carries_layOut {code : Bytes} {before after : List Placed}
    (decoded : decode code = .ok before)
    (replaced : List.Forall₂ Placed.Replaced before after) :
    (layOut after code.length).Carries before code.length := by
  obtain ⟨lands, shrinks⟩ := sends_layOut decoded replaced
  have rising : (stops before code.length).Pairwise (· < ·) := by
    have ordered := (decode_eq_ok.mp decoded).stops_ordered.2
    rwa [Nat.zero_add] at ordered
  simp only [stops_of_replaced code.length replaced] at lands
  have counted : (stops before code.length).length = (landings after 0).length := by
    rw [length_landings after code.length, stops_of_replaced code.length replaced]
  refine ⟨fun o => ?_, fun o m sends => ?_, fun {o o' m m'} sends sends' => ?_, shrinks⟩
  · have firsts := List.map_fst_zip (Nat.le_of_eq counted)
    constructor
    · intro ⟨m, sends⟩
      exact (List.of_mem_zip ((lands o m).mp sends)).1
    · intro stop
      rw [← firsts] at stop
      obtain ⟨⟨o, m⟩, paired, rfl⟩ := List.mem_map.mp stop
      exact ⟨m, (lands o m).mpr paired⟩
  · exact le_of_mem_stops rising (List.of_mem_zip ((lands o m).mp sends)).1
  · exact lt_iff_of_mem_zip rising (landings_ordered after 0).2 ((lands o m).mp sends)
      ((lands o' m').mp sends')

/-- Assembled code is a row of the moved instructions that fills it to its end. -/
theorem tiles_of_assemble {code bytes : Bytes} {before after : List Placed} {map : OffsetMap}
    (decoded : decode code = .ok before)
    (replaced : List.Forall₂ Placed.Replaced before after)
    (assembled : assemble after code.length = .ok (bytes, map)) :
    map.Sends code.length bytes.length ∧
      ∃ moved, List.Forall₂ (Placed.Moves map) after moved ∧ Tiles 0 bytes moved := by
  obtain ⟨rfl, emits⟩ := assemble_eq_ok.mp assembled
  obtain ⟨lands, shrinks⟩ := sends_layOut decoded replaced
  have encodable := encodable_of_replaced (decode_eq_ok.mp decoded).encodable replaced
  obtain ⟨ending, moved, moves, tiles⟩ :=
    emits.tiles shrinks encodable fun o m => (lands o m).mpr
  rw [Nat.zero_add] at ending
  exact ⟨ending, moved, moves, tiles⟩

/-- Assembling a decoded list, with any of its dynamic calls made static, gives code that
decodes to the list with every offset and target sent through the map. The old end goes to
the new end, and each instruction is encoded where the map sends it, in as many bytes as its
size there predicts. -/
theorem decode_assemble {code bytes : Bytes} {before after : List Placed} {map : OffsetMap}
    (decoded : decode code = .ok before)
    (replaced : List.Forall₂ Placed.Replaced before after)
    (assembled : assemble after code.length = .ok (bytes, map)) :
    (∃ moved, decode bytes = .ok moved ∧ List.Forall₂ (Placed.Moves map) after moved) ∧
      map.Sends code.length bytes.length ∧
      ∀ p ∈ after, ∃ front piece back, bytes = front ++ (piece ++ back) ∧
        map.Sends p.offset front.length ∧ p.encode map front.length = .ok piece ∧
        piece.length = p.instruction.size front.length := by
  obtain ⟨ending, moved, moves, tiles⟩ := tiles_of_assemble decoded replaced assembled
  refine ⟨⟨moved, decode_eq_ok.mpr tiles, moves⟩, ending, ?_⟩
  obtain ⟨rfl, emits⟩ := assemble_eq_ok.mp assembled
  obtain ⟨lands, shrinks⟩ := sends_layOut decoded replaced
  have encodable := encodable_of_replaced (decode_eq_ok.mp decoded).encodable replaced
  have pieces := emits.piece shrinks encodable fun o m => (lands o m).mpr
  simpa only [Nat.zero_add] using pieces

/-- A dynamic call in front of a switch: the call loses two bytes, and the switch its two
bytes of padding. -/
theorem decode_assemble_before_switch :
    let code : Bytes := [0xBA, 0, 1, 0, 0, 0xAA, 0, 0, 0, 0, 0, 19, 0, 0, 0, 7, 0, 0, 0, 7,
      0, 0, 0, 19, 0xB1]
    let after : List Placed := [⟨0, .call Opcode.invokeStatic 9⟩, ⟨5, .tableSwitch 24 7 [24]⟩,
      ⟨24, .plain 0xB1 []⟩]
    let bytes : Bytes := [0xB8, 0, 9, 0xAA, 0, 0, 0, 17, 0, 0, 0, 7, 0, 0, 0, 7, 0, 0, 0, 17, 0xB1]
    decode code = .ok [⟨0, .dynamicCall 1⟩, ⟨5, .tableSwitch 24 7 [24]⟩, ⟨24, .plain 0xB1 []⟩] ∧
      assemble after code.length = .ok (bytes, layOut after code.length) ∧
      (∃ moved, decode bytes = .ok moved ∧
        List.Forall₂ (Placed.Moves (layOut after code.length)) after moved) ∧
      (layOut after code.length).Sends 25 21 := by
  intro code after bytes
  have decoded : decode code = .ok [⟨0, .dynamicCall 1⟩, ⟨5, .tableSwitch 24 7 [24]⟩,
      ⟨24, .plain 0xB1 []⟩] := by decide +kernel
  have replaced : List.Forall₂ Placed.Replaced [⟨0, .dynamicCall 1⟩,
      ⟨5, .tableSwitch 24 7 [24]⟩, ⟨24, .plain 0xB1 []⟩] after :=
    .cons (.call 0 1 9) (.cons (.kept _) (.cons (.kept _) .nil))
  have found : (layOut after code.length).find 24 = .ok 20 :=
    OffsetMap.find_eq_ok.mpr (((sends_layOut decoded replaced).1 24 20).mpr (by decide))
  have call : Placed.encode (layOut after code.length) 0 ⟨0, .call Opcode.invokeStatic 9⟩ =
      .ok [0xB8, 0, 9] := rfl
  have switch : Placed.encode (layOut after code.length) 3 ⟨5, .tableSwitch 24 7 [24]⟩ =
      .ok [0xAA, 0, 0, 0, 17, 0, 0, 0, 7, 0, 0, 0, 7, 0, 0, 0, 17] := by
    simp only [Placed.encode, Placed.far, Placed.distance, found, List.mapM_cons, List.mapM_nil]
    rfl
  have last : Placed.encode (layOut after code.length) 20 ⟨24, .plain 0xB1 []⟩ = .ok [0xB1] := rfl
  have assembled : assemble after code.length = .ok (bytes, layOut after code.length) :=
    assemble_eq_ok.mpr ⟨rfl, .cons call (.cons switch (.cons last (.nil _)))⟩
  obtain ⟨again, ending, _⟩ := decode_assemble decoded replaced assembled
  exact ⟨decoded, assembled, again, ending⟩

end Downlevel
