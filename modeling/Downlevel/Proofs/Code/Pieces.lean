/-
# Downlevel.Proofs.Code.Pieces — the bytes an instruction takes

Code is cut into pieces, one for each instruction: `Placed.bytes` is the piece that an
instruction takes. In decoded code it is the format of the instruction at its offset
(`Tiles.encoded_bytes`), in assembled code what the instruction is encoded to where the map
sends it (`pieces_of_assemble`).
-/
import Downlevel.Proofs.Code.Reassembly

namespace Downlevel

set_option autoImplicit false

/-- The bytes that the instruction takes in its code. -/
def Placed.bytes (code : Bytes) (p : Placed) : Bytes :=
  (code.drop p.offset).take (p.instruction.size p.offset)

theorem Placed.bytes_of_split {front piece back : Bytes} {p : Placed}
    (starts : p.offset = front.length) (sized : piece.length = p.instruction.size p.offset) :
    p.bytes (front ++ (piece ++ back)) = piece := by
  rw [Placed.bytes, starts, List.drop_left, ← starts, ← sized, List.take_left]

/-- Every instruction of a row has its own piece of it. -/
theorem Tiles.piece {offset : Nat} {bytes : Bytes} {code : List Placed}
    (tiles : Tiles offset bytes code) : ∀ p ∈ code, ∃ front piece back,
      bytes = front ++ (piece ++ back) ∧ p.offset = offset + front.length ∧
        p.instruction.Encoded p.offset piece := by
  induction tiles with
  | nil offset => exact fun p member => absurd member List.not_mem_nil
  | @cons offset instruction first rest code encoded _ ih =>
      intro p member
      rcases List.mem_cons.mp member with rfl | member
      · exact ⟨[], first, rest, rfl, rfl, encoded⟩
      · obtain ⟨front, piece, back, rfl, starts, found⟩ := ih p member
        refine ⟨first ++ front, piece, back, (List.append_assoc _ _ _).symm, ?_, found⟩
        rw [starts, List.length_append, Nat.add_assoc]

/-- In decoded code an instruction takes the bytes of its format. -/
theorem Tiles.encoded_bytes {bytes : Bytes} {code : List Placed} (tiles : Tiles 0 bytes code)
    {p : Placed} (member : p ∈ code) : p.instruction.Encoded p.offset (p.bytes bytes) := by
  obtain ⟨front, piece, back, rfl, starts, encoded⟩ := tiles.piece p member
  rw [Nat.zero_add] at starts
  rwa [Placed.bytes_of_split starts encoded.length]

/-- In assembled code an instruction takes the bytes that it is encoded to where it went. -/
theorem pieces_of_assemble {code bytes : Bytes} {before after : List Placed} {map : OffsetMap}
    (decoded : decode code = .ok before)
    (replaced : List.Forall₂ Placed.Replaced before after)
    (assembled : assemble after code.length = .ok (bytes, map)) :
    ∃ moved, decode bytes = .ok moved ∧
      List.Forall₂ (fun p p' => p.Moves map p' ∧
        p.encode map p'.offset = .ok (p'.bytes bytes)) after moved := by
  obtain ⟨-, moved, moves, tiles⟩ := tiles_of_assemble decoded replaced assembled
  refine ⟨moved, decode_eq_ok.mpr tiles, ?_⟩
  obtain ⟨rfl, emits⟩ := assemble_eq_ok.mp assembled
  obtain ⟨lands, shrinks⟩ := sends_layOut decoded replaced
  have encodable := encodable_of_replaced (decode_eq_ok.mp decoded).encodable replaced
  have pieces := emits.piece shrinks encodable fun o m => (lands o m).mpr
  refine ((List.forall₂_and_left _ _).mpr ⟨pieces, moves⟩).imp ?_
  rintro p p' ⟨⟨front, piece, back, rfl, sends, encoded, sized⟩, moved⟩
  rw [Nat.zero_add] at sends encoded sized
  have starts : p'.offset = front.length := Option.some.inj (moved.1.symm.trans sends)
  have size : piece.length = p'.instruction.size p'.offset := by
    rw [sized, moved.2.size_eq, starts]
  rw [Placed.bytes_of_split starts size, starts]
  exact ⟨moved, encoded⟩

end Downlevel
