/-
# Downlevel.Proofs.Code.Relocation — moved tables stay within the format

Moving the tables of a body keeps their names, their order and the number of their rows.
Most of them keep their length too: a row of a table of lines or variables has a fixed
length, and so has an annotation once its target is known (`TypeAnnotation.length_relocateTable`).
Only stack map frames may grow, because a small delta is written inside the tag and a large one
behind it: two bytes more for a frame of at least one byte. So a moved attribute is at most three
times as long as it was (`Attribute.length_relocate`), and so is a body whose code did not grow
(`Body.length_relocate`).

A frame grows only if its new delta is 64 or more, so a table that moves along with its code grows
by a byte for every 32 bytes of code at most (`Frame.length_writeOnto_le`). The code itself takes
more room than that beside the table, so no attribute of a body outgrows the body that held it
(`Body.info_length_relocate`).
-/
import Downlevel.Code.Relocation
import Downlevel.Proofs.Code.Frames
import Downlevel.Proofs.Code.TypeAnnotations

namespace Downlevel

set_option autoImplicit false

open Reader

/-! ## Verification types -/

theorem VerificationType.length_relocate {map : OffsetMap} {type moved : VerificationType}
    (ok : type.relocate map = .ok moved) : moved.write.length = type.write.length := by
  cases type with
  | uninitialized offset =>
      obtain ⟨found, _, same⟩ := Sequencing.bind_eq_ok.mp ok
      obtain rfl := Sequencing.pure_eq_ok.mp same
      rfl
  | _ =>
      obtain rfl := Sequencing.pure_eq_ok.mp ok
      rfl

theorem VerificationType.length_relocate_all {map : OffsetMap}
    {types moved : List VerificationType} (ok : types.mapM (relocate map) = .ok moved) :
    (moved.flatMap write).length = (types.flatMap write).length := by
  have rounds := Sequencing.mapM_eq_ok.mp ok
  clear ok
  induction rounds with
  | nil => rfl
  | cons first _ ih =>
      rw [List.flatMap_cons, List.flatMap_cons, List.length_append, List.length_append, ih,
        length_relocate first]

/-! ## Frames -/

namespace FrameKind

/-- The length of a frame that is written with a delta of its own. -/
def longest (kind : FrameKind) : Nat :=
  (kind.write 64).length

theorem length_write_le (kind : FrameKind) (delta : UInt16) :
    (kind.write delta).length ≤ kind.longest := by
  cases kind with
  | same =>
      simp only [longest, write]
      split <;> simp
  | sameWithItem item =>
      simp only [longest, write]
      split <;> simp
  | chop count => simp [longest, write]
  | append locals => simp [longest, write]
  | full locals stack => simp [longest, write]

/-- A form takes at least its tag, and at most two bytes less than the longest. -/
theorem longest_of_form {kind : FrameKind} {delta : UInt16} {piece : Bytes}
    (form : kind.Form delta piece) : 0 < piece.length ∧ kind.longest ≤ piece.length + 2 := by
  obtain ⟨compact, spelled⟩ := form
  cases spelled with
  | append => simp [longest, write]
  | full => simp [longest, write]
  | _ => simp [longest, write] <;> omega

/-- Beside what the frame took before, it takes a byte for every 32 of its new delta at most. -/
theorem length_write_of_form {kind : FrameKind} {delta : UInt16} {piece : Bytes}
    (form : kind.Form delta piece) (delta' : UInt16) :
    32 * (kind.write delta').length ≤ 32 * piece.length + (delta'.toNat + 1) := by
  obtain ⟨compact, spelled⟩ := form
  cases spelled with
  | same _ =>
      rw [write]
      split
      · simp
      · simp
        omega
  | item _ type =>
      rw [write]
      split
      · simp
      · simp
        omega
  | sameExtended =>
      rw [write]
      split
      · simp
        omega
      · simp
  | itemExtended _ type =>
      rw [write]
      split
      · simp
        omega
      · simp
  | _ => simp [write]

theorem length_write_relocate {map : OffsetMap} {kind moved : FrameKind}
    (ok : kind.relocate map = .ok moved) (delta : UInt16) :
    (moved.write delta).length = (kind.write delta).length := by
  cases kind with
  | same =>
      obtain rfl := Sequencing.pure_eq_ok.mp ok
      rfl
  | sameWithItem item =>
      obtain ⟨item', relocated, same⟩ := Sequencing.bind_eq_ok.mp ok
      obtain rfl := Sequencing.pure_eq_ok.mp same
      rw [write, write]
      split <;> simp [VerificationType.length_relocate relocated]
  | chop count =>
      obtain rfl := Sequencing.pure_eq_ok.mp ok
      rfl
  | append locals =>
      obtain ⟨locals', relocated, same⟩ := Sequencing.bind_eq_ok.mp ok
      obtain rfl := Sequencing.pure_eq_ok.mp same
      simp only [write, List.length_cons, List.length_append,
        VerificationType.length_relocate_all relocated]
  | full locals stack =>
      obtain ⟨locals', relocated, ok⟩ := Sequencing.bind_eq_ok.mp ok
      obtain ⟨stack', relocated', same⟩ := Sequencing.bind_eq_ok.mp ok
      obtain rfl := Sequencing.pure_eq_ok.mp same
      simp only [write, writeTable, List.length_cons, List.length_append, length_be16,
        VerificationType.length_relocate_all relocated,
        VerificationType.length_relocate_all relocated']

end FrameKind

namespace Frame

/-- The length of a list of frames in their longest forms. -/
def longest (frames : List Frame) : Nat :=
  (frames.flatMap fun frame => frame.kind.write 64).length

theorem longest_cons (frame : Frame) (frames : List Frame) :
    longest (frame :: frames) = frame.kind.longest + longest frames := by
  rw [longest, List.flatMap_cons, List.length_append]
  rfl

theorem Row.longest_le {previous : Option Nat} {frames : List Frame} {bytes : Bytes}
    (row : Row FrameKind.Form previous frames bytes) :
    frames.length ≤ bytes.length ∧ longest frames ≤ bytes.length + 2 * frames.length := by
  induction row with
  | nil => exact ⟨Nat.le_refl 0, Nat.le_refl 0⟩
  | cons _ form _ _ ih =>
      obtain ⟨positive, bound⟩ := FrameKind.longest_of_form form
      rw [longest_cons, List.length_append, List.length_cons]
      omega

theorem length_writeOnto {previous : Option Nat} {pieces : List Bytes} {frames : List Frame} :
    (writeOnto previous pieces frames).length ≤
      pieces.reverse.flatten.length + longest frames := by
  induction frames generalizing previous pieces with
  | nil => exact Nat.le_add_right _ _
  | cons frame frames ih =>
      rw [writeOnto, longest_cons]
      have bound := frame.kind.length_write_le (deltaAfter previous frame.offset)
      refine Nat.le_trans ih ?_
      simp only [List.reverse_cons, List.flatten_append, List.length_append, List.flatten_cons,
        List.flatten_nil, List.append_nil]
      omega

theorem longest_relocate {map : OffsetMap} {frames moved : List Frame}
    (ok : frames.mapM (relocate map) = .ok moved) : longest moved = longest frames := by
  have rounds := Sequencing.mapM_eq_ok.mp ok
  clear ok
  induction rounds with
  | nil => rfl
  | cons first _ ih =>
      obtain ⟨offset, _, ok⟩ := Sequencing.bind_eq_ok.mp first
      obtain ⟨kind, relocated, same⟩ := Sequencing.bind_eq_ok.mp ok
      obtain rfl := Sequencing.pure_eq_ok.mp same
      rw [longest_cons, longest_cons, ih, FrameKind.longest, FrameKind.longest,
        FrameKind.length_write_relocate relocated]

theorem length_relocateTable {map : OffsetMap} {info moved : Bytes}
    (ok : relocateTable map info = .ok moved) : moved.length ≤ 3 * info.length := by
  obtain ⟨frames, read, ok⟩ := Sequencing.bind_eq_ok.mp ok
  obtain ⟨frames', relocated, same⟩ := Sequencing.bind_eq_ok.mp ok
  obtain rfl := Sequencing.pure_eq_ok.mp same
  obtain ⟨-, bytes, row, rfl⟩ := readTable_eq_ok.mp (readAttribute_iff_read.mp read)
  obtain ⟨counted, total⟩ := row.longest_le
  have written := @length_writeOnto none [] frames'
  rw [longest_relocate relocated] at written
  simp only [writeAll, List.length_append, List.reverse_nil, List.flatten_nil, List.length_nil,
    List.append_nil, length_be16] at *
  omega

/-- The stored delta is no more than the distance it stands for. -/
theorem toNat_deltaAfter_le {previous : Option Nat} {offset : Nat}
    (later : ∀ before ∈ previous, before < offset) :
    offsetAfter previous 0 + (deltaAfter previous offset).toNat ≤ offset := by
  cases previous with
  | none =>
      rw [offsetAfter, deltaAfter, UInt16.toNat_ofNat']
      omega
  | some before =>
      have less := later before rfl
      rw [offsetAfter, deltaAfter, UInt16.toNat_ofNat']
      omega

/-- Frames whose offsets rise up to `limit` take a byte more for every 32 of it at most. -/
theorem length_writeOnto_le {map : OffsetMap} {previous previous' : Option Nat}
    {frames moved : List Frame} {bytes : Bytes} {pieces : List Bytes} {limit : Nat}
    (row : Row FrameKind.Form previous frames bytes)
    (rounds : List.Forall₂ (fun frame frame' => frame.relocate map = .ok frame') frames moved)
    (rising : (previous'.toList ++ moved.map Frame.offset).Pairwise (· < ·))
    (within : ∀ frame ∈ moved, frame.offset ≤ limit) (begun : offsetAfter previous' 0 ≤ limit + 1) :
    32 * (writeOnto previous' pieces moved).length + offsetAfter previous' 0 ≤
      32 * (pieces.reverse.flatten.length + bytes.length) + (limit + 1) := by
  -- Along the row: what the frames up to here have grown by is paid for by their offset.
  induction row generalizing moved previous' pieces with
  | nil previous =>
      cases rounds
      rw [writeOnto, List.length_nil]
      omega
  | @cons previous delta frame frames piece rest fits form leads _ ih =>
      cases rounds with
      | @cons _ frame' _ moved first others =>
          obtain ⟨offset, -, ok⟩ := Sequencing.bind_eq_ok.mp first
          obtain ⟨kind, relocated, same⟩ := Sequencing.bind_eq_ok.mp ok
          obtain rfl := Sequencing.pure_eq_ok.mp same
          have later : ∀ before ∈ previous', before < offset := by
            rintro before rfl
            exact (List.pairwise_cons.mp rising).1 _ List.mem_cons_self
          have behind : (offset :: moved.map Frame.offset).Pairwise (· < ·) := by
            cases previous' with
            | none => exact rising
            | some before => exact (List.pairwise_cons.mp rising).2
          obtain ⟨here, inside⟩ := List.forall_mem_cons.mp within
          have distance := toNat_deltaAfter_le later
          have grows := FrameKind.length_write_of_form form (deltaAfter previous' offset)
          rw [← FrameKind.length_write_relocate relocated] at grows
          have total := @ih (some offset) moved (kind.write (deltaAfter previous' offset) :: pieces)
            others behind inside (Nat.succ_le_succ here)
          have next : offsetAfter (some offset) 0 = offset + 1 := rfl
          have written : writeOnto previous' pieces (⟨offset, kind⟩ :: moved) =
              writeOnto (some offset) (kind.write (deltaAfter previous' offset) :: pieces) moved :=
            rfl
          rw [written, List.length_append]
          simp only [List.reverse_cons, List.flatten_append, List.length_append, List.flatten_cons,
            List.flatten_nil, List.append_nil, next] at total
          omega

/-- A table that moves along with its code takes a byte more for every 32 bytes of code at most. -/
theorem length_relocateTable_of_carries {map : OffsetMap} {code : List Placed} {length : Nat}
    (carries : map.Carries code length) {info moved : Bytes}
    (ok : relocateTable map info = .ok moved) :
    32 * moved.length ≤ 32 * info.length + (length + 1) := by
  obtain ⟨frames, read, ok⟩ := Sequencing.bind_eq_ok.mp ok
  obtain ⟨frames', relocated, same⟩ := Sequencing.bind_eq_ok.mp ok
  obtain rfl := Sequencing.pure_eq_ok.mp same
  obtain ⟨-, bytes, row, rfl⟩ := readTable_eq_ok.mp (readAttribute_iff_read.mp read)
  have rounds := Sequencing.mapM_eq_ok.mp relocated
  have moves := rounds.imp fun frame frame' => (relocate_eq_ok carries.shrinks).mp
  have rising := ordered_of_moves carries moves row.ordered
  have within : ∀ frame ∈ frames', frame.offset ≤ length := fun frame member => by
    obtain ⟨old, -, sends, -⟩ := Sequencing.round_of_mem moves member
    exact Nat.le_trans (carries.shrinks _ _ sends) (carries.within _ _ sends)
  have written := @length_writeOnto_le map none none frames frames' bytes [] length row rounds rising
    within (Nat.zero_le _)
  simp only [writeAll, List.length_append, List.reverse_nil, List.flatten_nil, List.length_nil,
    List.append_nil, length_be16, offsetAfter] at written ⊢
  omega

end Frame

/-! ## Lines and variables -/

/-- Tables of the same number of rows of a fixed length are equally long. -/
theorem length_writeTable_of_fixed {α : Type} {write : α → Bytes} {width : Nat}
    (fixed : ∀ a, (write a).length = width) {rows moved : List α}
    (count : rows.length = moved.length) :
    (writeTable write moved).length = (writeTable write rows).length := by
  simp [writeTable, List.length_flatMap, fixed, count]

namespace LineNumber

theorem read_inverts : Inverts LineNumber.read LineNumber.write fun _ => True := by
  intro input row rest
  simp only [LineNumber.read, bind_eq_ok, pure_eq_ok, u16_eq_ok]
  constructor
  · rintro ⟨start, _, rfl, line, _, rfl, rfl, rfl⟩
    exact ⟨trivial, by simp only [LineNumber.write, List.append_assoc]⟩
  · rintro ⟨-, rfl⟩
    exact ⟨row.start, _, by rw [LineNumber.write, List.append_assoc], row.line, rest, rfl, rfl, rfl⟩

@[simp] theorem length_write (row : LineNumber) : row.write.length = 4 := rfl

theorem length_relocateTable {map : OffsetMap} {info moved : Bytes}
    (ok : relocateTable map info = .ok moved) : moved.length = info.length := by
  obtain ⟨rows, read, next⟩ := Sequencing.bind_eq_ok.mp ok
  obtain ⟨rows', relocated, same⟩ := Sequencing.bind_eq_ok.mp next
  obtain ⟨-, rfl⟩ := (readAttribute_eq_ok (table_inverts read_inverts)).mp read
  obtain rfl := Sequencing.pure_eq_ok.mp same
  exact length_writeTable_of_fixed length_write (Sequencing.mapM_eq_ok.mp relocated).length_eq

end LineNumber

namespace LocalVariable

theorem read_inverts : Inverts LocalVariable.read LocalVariable.write fun _ => True := by
  intro input row rest
  simp only [LocalVariable.read, bind_eq_ok, pure_eq_ok, u16_eq_ok]
  constructor
  · rintro ⟨start, _, rfl, length, _, rfl, name, _, rfl, type, _, rfl, slot, _, rfl, rfl, rfl⟩
    exact ⟨trivial, by simp only [LocalVariable.write, List.append_assoc]⟩
  · rintro ⟨-, rfl⟩
    exact ⟨row.start, _, by rw [LocalVariable.write, List.append_assoc], row.length, _,
      by rw [List.append_assoc], row.name, _, by rw [List.append_assoc], row.type, _,
      by rw [List.append_assoc], row.slot, rest, rfl, rfl, rfl⟩

@[simp] theorem length_write (row : LocalVariable) : row.write.length = 10 := rfl

theorem length_relocateTable {name : String} {map : OffsetMap} {info moved : Bytes}
    (ok : relocateTable name map info = .ok moved) : moved.length = info.length := by
  obtain ⟨rows, read, next⟩ := Sequencing.bind_eq_ok.mp ok
  obtain ⟨rows', relocated, same⟩ := Sequencing.bind_eq_ok.mp next
  obtain ⟨-, rfl⟩ := (readAttribute_eq_ok (table_inverts read_inverts)).mp read
  obtain rfl := Sequencing.pure_eq_ok.mp same
  exact length_writeTable_of_fixed length_write (Sequencing.mapM_eq_ok.mp relocated).length_eq

end LocalVariable

/-! ## Bodies -/

/-- Only a table of frames may change its length, which is three times as long at most; along with
its code it grows by a byte for every 32 bytes of code at most. -/
theorem OffsetTable.length_relocate {table : OffsetTable} {map : OffsetMap} {info moved : Bytes}
    (ok : table.relocate map info = .ok moved) :
    moved.length ≤ 3 * info.length ∧ ∀ code length, map.Carries code length →
      32 * moved.length ≤ 32 * info.length + (length + 1) := by
  have kept (same : moved.length = info.length) :
      moved.length ≤ 3 * info.length ∧ ∀ code length, map.Carries code length →
        32 * moved.length ≤ 32 * info.length + (length + 1) :=
    ⟨by omega, fun _ _ _ => by omega⟩
  cases table with
  | frames =>
      exact ⟨Frame.length_relocateTable ok,
        fun _ _ carries => Frame.length_relocateTable_of_carries carries ok⟩
  | lineNumbers => exact kept (LineNumber.length_relocateTable ok)
  | localVariables => exact kept (LocalVariable.length_relocateTable ok)
  | localVariableTypes => exact kept (LocalVariable.length_relocateTable ok)
  | visibleAnnotations => exact kept <| TypeAnnotation.length_relocateTable ok
  | invisibleAnnotations => exact kept <| TypeAnnotation.length_relocateTable ok

theorem Attribute.length_relocate {pool : Pool} {map : OffsetMap} {a moved : Attribute}
    (ok : a.relocate pool map = .ok moved) :
    moved.info.length ≤ 3 * a.info.length ∧ ∀ code length, map.Carries code length →
      32 * moved.info.length ≤ 32 * a.info.length + (length + 1) := by
  obtain ⟨name, _, next⟩ := Sequencing.bind_eq_ok.mp ok
  split at next
  · obtain ⟨info, relocated, same⟩ := Sequencing.bind_eq_ok.mp next
    obtain rfl := Sequencing.pure_eq_ok.mp same
    exact OffsetTable.length_relocate relocated
  · obtain rfl := Sequencing.pure_eq_ok.mp next
    exact ⟨by omega, fun _ _ _ => by omega⟩

theorem Attribute.length_relocate_all {pool : Pool} {map : OffsetMap}
    {attributes moved : List Attribute}
    (rounds : List.Forall₂ (fun a b => a.relocate pool map = .ok b) attributes moved) :
    (moved.flatMap write).length ≤ 3 * (attributes.flatMap write).length := by
  induction rounds with
  | nil => exact Nat.le_refl 0
  | cons first _ ih =>
      have bound := (length_relocate first).1
      rw [List.flatMap_cons, List.flatMap_cons, List.length_append, List.length_append]
      simp only [write, List.length_append, length_be16, length_be32]
      omega

namespace Body

theorem length_write (b : Body) :
    b.write.length = 12 + b.code.length + 8 * b.handlers.length +
      (b.attributes.flatMap Attribute.write).length := by
  simp [write, writeTable, List.length_flatMap]
  omega

/-- An attribute's contents are stored beside the code of the body that holds it. -/
theorem info_length_le_write {b : Body} {a : Attribute} (held : a ∈ b.attributes) :
    12 + b.code.length + a.info.length ≤ b.write.length := by
  have inTable := List.Sublist.length_le
    (List.sublist_flatten_of_mem (List.mem_map_of_mem (f := Attribute.write) held))
  rw [← List.flatMap_def] at inTable
  have inAttribute : a.info.length ≤ a.write.length := by
    simp only [Attribute.write, List.length_append]
    omega
  rw [length_write]
  omega

/-- A moved body has the code it is given. Unless the code grows, the body is at most three
times as long as before. -/
theorem length_relocate {pool : Pool} {map : OffsetMap} {code : Bytes} {b moved : Body}
    (ok : b.relocate pool map code = .ok moved) (shorter : code.length ≤ b.code.length) :
    moved.code = code ∧ moved.write.length ≤ 3 * b.write.length := by
  obtain ⟨handlers, movedHandlers, next⟩ := Sequencing.bind_eq_ok.mp ok
  obtain ⟨attributes, movedAttributes, same⟩ := Sequencing.bind_eq_ok.mp next
  obtain rfl := Sequencing.pure_eq_ok.mp same
  have count := (Sequencing.mapM_eq_ok.mp movedHandlers).length_eq
  have bound := Attribute.length_relocate_all (Sequencing.mapM_eq_ok.mp movedAttributes)
  refine ⟨rfl, ?_⟩
  simp only [length_write]
  omega

/-- A moved body is within the limits of the format if its attributes are. -/
theorem fits_relocate {pool : Pool} {map : OffsetMap} {code : Bytes} {b moved : Body}
    (ok : b.relocate pool map code = .ok moved) (shorter : code.length ≤ b.code.length)
    (fits : b.Fits) (short : ∀ a ∈ moved.attributes, a.info.length < 4294967296) : moved.Fits := by
  obtain ⟨handlers, movedHandlers, next⟩ := Sequencing.bind_eq_ok.mp ok
  obtain ⟨attributes, movedAttributes, same⟩ := Sequencing.bind_eq_ok.mp next
  obtain rfl := Sequencing.pure_eq_ok.mp same
  have countHandlers := (Sequencing.mapM_eq_ok.mp movedHandlers).length_eq
  have countAttributes := (Sequencing.mapM_eq_ok.mp movedAttributes).length_eq
  exact ⟨Nat.lt_of_le_of_lt shorter fits.code, countHandlers ▸ fits.handlers,
    countAttributes ▸ fits.attributes.1, short⟩

/-- No attribute of a body that moves along with its code outgrows the body as it was. -/
theorem info_length_relocate {pool : Pool} {map : OffsetMap} {code : Bytes} {b moved : Body}
    {before : List Placed} (carries : map.Carries before b.code.length)
    (ok : b.relocate pool map code = .ok moved) :
    ∀ a ∈ moved.attributes, a.info.length ≤ b.write.length := by
  obtain ⟨handlers, -, next⟩ := Sequencing.bind_eq_ok.mp ok
  obtain ⟨attributes, movedAttributes, same⟩ := Sequencing.bind_eq_ok.mp next
  obtain rfl := Sequencing.pure_eq_ok.mp same
  intro a' member
  obtain ⟨a, held, relocated⟩ :=
    Sequencing.round_of_mem (Sequencing.mapM_eq_ok.mp movedAttributes) member
  have grown := (Attribute.length_relocate relocated).2 before b.code.length carries
  have room := info_length_le_write held
  omega

end Body

end Downlevel
