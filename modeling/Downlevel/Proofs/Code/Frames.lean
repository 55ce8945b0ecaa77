/-
# Downlevel.Proofs.Code.Frames — moved frames stay on their instructions

A frame that keeps the locals and has at most one stack item has two forms: the compact one
holds the delta in its tag. `FrameKind.Spelled` lists the forms. A frame is read exactly
from its forms (`Frame.readDelta_eq_ok`) and is written in the compact one whenever the
delta allows it (`FrameKind.brief_write`).

A table is a row of such forms in which each delta leads from one frame to the next
(`Frame.Row`). So the offsets rise along every row that is read, and rising offsets of 16
bits are written as a row again (`Frame.row_write`). A layout keeps the order of the offsets
it is defined at, which is why no delta of a moved table is negative, and why the moved
table reads back as the moved frames (`Frame.relocateTable_moves`).
-/
import Downlevel.Code.Frames
import Downlevel.Proofs.Code.Body
import Downlevel.Proofs.Code.Reassembly

namespace Downlevel

set_option autoImplicit false

open Reader

/-! ## Verification types -/

theorem VerificationType.read_inverts :
    Inverts VerificationType.read VerificationType.write fun _ => True := by
  intro input type rest
  rw [VerificationType.read, bind_eq_ok]
  simp only [u8_eq_ok]
  constructor
  · rintro ⟨tag, middle, rfl, read⟩
    split at read
    case h_8 =>
      obtain ⟨index, _, taken, same⟩ := bind_eq_ok.mp read
      obtain rfl := u16_eq_ok.mp taken
      obtain ⟨rfl, rfl⟩ := pure_eq_ok.mp same
      exact ⟨trivial, rfl⟩
    case h_9 =>
      obtain ⟨offset, _, taken, same⟩ := bind_eq_ok.mp read
      obtain rfl := u16_eq_ok.mp taken
      obtain ⟨rfl, rfl⟩ := pure_eq_ok.mp same
      exact ⟨trivial, rfl⟩
    case h_10 => cases read
    all_goals
      obtain ⟨rfl, rfl⟩ := pure_eq_ok.mp read
      exact ⟨trivial, rfl⟩
  · rintro ⟨-, rfl⟩
    cases type with
    | object index =>
        exact ⟨7, be16 index ++ rest, rfl, bind_eq_ok.mpr ⟨index, rest, u16_eq_ok.mpr rfl, rfl⟩⟩
    | uninitialized offset =>
        exact ⟨8, be16 offset ++ rest, rfl, bind_eq_ok.mpr ⟨offset, rest, u16_eq_ok.mpr rfl, rfl⟩⟩
    | top => exact ⟨0, rest, rfl, rfl⟩
    | integer => exact ⟨1, rest, rfl, rfl⟩
    | float => exact ⟨2, rest, rfl, rfl⟩
    | double => exact ⟨3, rest, rfl, rfl⟩
    | long => exact ⟨4, rest, rfl, rfl⟩
    | null => exact ⟨5, rest, rfl, rfl⟩
    | uninitializedThis => exact ⟨6, rest, rfl, rfl⟩

/-! ## Forms of a frame -/

namespace FrameKind

/-- What the tag and the counts of a frame can hold: at most three locals are dropped or
added. -/
def Fits : FrameKind → Prop
  | chop count => 1 ≤ count.toNat ∧ count.toNat ≤ 3
  | append locals => 1 ≤ locals.length ∧ locals.length ≤ 3
  | full locals stack => locals.length < 65536 ∧ stack.length < 65536
  | _ => True

/-- The forms of a frame with its delta; a compact one has the delta in its tag. -/
inductive Spelled : (compact : Bool) → UInt16 → FrameKind → Bytes → Prop where
  | same {delta : UInt16} (small : delta.toNat ≤ 63) : Spelled true delta .same [delta.toUInt8]
  | sameExtended (delta : UInt16) : Spelled false delta .same (251 :: be16 delta)
  | item {delta : UInt16} (small : delta.toNat ≤ 63) (type : VerificationType) :
      Spelled true delta (.sameWithItem type) ((64 + delta.toUInt8) :: type.write)
  | itemExtended (delta : UInt16) (type : VerificationType) :
      Spelled false delta (.sameWithItem type) (247 :: (be16 delta ++ type.write))
  | chop (delta : UInt16) (count : UInt8) :
      Spelled false delta (.chop count) ((251 - count) :: be16 delta)
  | append (delta : UInt16) (locals : List VerificationType) :
      Spelled false delta (.append locals) ((251 + UInt8.ofNat locals.length) ::
        (be16 delta ++ locals.flatMap VerificationType.write))
  | full (delta : UInt16) (locals stack : List VerificationType) :
      Spelled false delta (.full locals stack) (255 :: (be16 delta ++
        (writeTable VerificationType.write locals ++ writeTable VerificationType.write stack)))

/-- Whether the frame has a compact form. -/
def mayShorten : FrameKind → Bool
  | same => true
  | sameWithItem _ => true
  | _ => false

/-- One of the forms of a frame. -/
def Form (delta : UInt16) (kind : FrameKind) (piece : Bytes) : Prop :=
  ∃ compact, Spelled compact delta kind piece

/-- The form of a frame that is compact whenever there is a compact one. -/
def Brief (delta : UInt16) (kind : FrameKind) (piece : Bytes) : Prop :=
  ∃ compact, Spelled compact delta kind piece ∧
    (compact = true ↔ kind.mayShorten = true ∧ delta.toNat ≤ 63)

theorem brief_write (kind : FrameKind) (delta : UInt16) : Brief delta kind (kind.write delta) := by
  cases kind with
  | same =>
      by_cases small : delta.toNat ≤ 63
      · exact ⟨true, by simpa [write, small] using Spelled.same small, by simp [mayShorten, small]⟩
      · exact ⟨false, by simpa [write, small] using Spelled.sameExtended delta, by simp [small]⟩
  | sameWithItem type =>
      by_cases small : delta.toNat ≤ 63
      · exact ⟨true, by simpa [write, small] using Spelled.item small type,
          by simp [mayShorten, small]⟩
      · exact ⟨false, by simpa [write, small] using Spelled.itemExtended delta type,
          by simp [small]⟩
  | chop count => exact ⟨false, .chop delta count, by simp [mayShorten]⟩
  | append locals => exact ⟨false, .append delta locals, by simp [mayShorten]⟩
  | full locals stack => exact ⟨false, .full delta locals stack, by simp [mayShorten]⟩

end FrameKind

namespace Frame

/-- A delta that a compact tag has room for is read back from its low byte. -/
theorem toUInt16_toUInt8 {delta : UInt16} (small : delta.toNat ≤ 63) :
    delta.toUInt8.toUInt16 = delta := by
  apply UInt16.toNat_inj.mp
  rw [UInt8.toNat_toUInt16, UInt16.toNat_toUInt8]
  omega

/-- The number of chopped locals and the tag that says it are found from each other in the same
way. -/
theorem chopTag {count : UInt8} (few : count.toNat ≤ 251) :
    (251 - count).toNat = 251 - count.toNat ∧ 251 - (251 - count) = count := by
  have tagged : (251 - count).toNat = 251 - count.toNat := by
    rw [UInt8.toNat_sub]
    simp
    omega
  refine ⟨tagged, UInt8.toNat_inj.mp ?_⟩
  rw [UInt8.toNat_sub, tagged]
  simp
  omega

/-- A frame that is read stands there in one of its forms. -/
theorem form_of_readDelta {input rest : Bytes} {delta : UInt16} {kind : FrameKind}
    (read : readDelta input = .ok ((delta, kind), rest)) :
    kind.Fits ∧ ∃ piece, kind.Form delta piece ∧ input = piece ++ rest := by
  obtain ⟨tag, middle, taken, next⟩ := bind_eq_ok.mp read
  rw [u8_eq_ok.mp taken]
  clear read taken
  split at next
  · rename_i small
    obtain ⟨same, rfl⟩ := pure_eq_ok.mp next
    cases same
    have form := @FrameKind.Spelled.same tag.toUInt16 (by simpa using small)
    exact ⟨trivial, [tag], ⟨true, by simpa using form⟩, rfl⟩
  split at next
  · rename_i _ small
    obtain ⟨type, _, taken, same⟩ := bind_eq_ok.mp next
    obtain rfl := VerificationType.read_inverts.write_read taken
    obtain ⟨same, rfl⟩ := pure_eq_ok.mp same
    cases same
    have delta : (tag - 64).toUInt16.toNat ≤ 63 := by
      rw [UInt8.toNat_toUInt16, UInt8.toNat_sub]
      simp
      omega
    have tagged : 64 + (tag - 64).toUInt16.toUInt8 = tag := by
      rw [UInt8.toUInt8_toUInt16, UInt8.add_comm, UInt8.sub_add_cancel]
    have form := FrameKind.Spelled.item delta type
    rw [tagged] at form
    exact ⟨trivial, tag :: type.write, ⟨true, form⟩, rfl⟩
  split at next
  · cases next
  obtain ⟨delta, after, taken, last⟩ := bind_eq_ok.mp next
  rw [u16_eq_ok.mp taken]
  have bound := tag.toNat_lt
  clear next taken
  split at last
  · rename_i tagged
    obtain ⟨type, _, taken, same⟩ := bind_eq_ok.mp last
    obtain rfl := VerificationType.read_inverts.write_read taken
    obtain ⟨same, rfl⟩ := pure_eq_ok.mp same
    cases same
    obtain rfl : tag = 247 := UInt8.toNat_inj.mp tagged
    exact ⟨trivial, _, ⟨false, .itemExtended delta type⟩, by simp⟩
  split at last
  · obtain ⟨same, rfl⟩ := pure_eq_ok.mp last
    cases same
    obtain ⟨count, tagged⟩ := chopTag (show tag.toNat ≤ 251 by omega)
    have form := FrameKind.Spelled.chop delta (251 - tag)
    rw [tagged] at form
    exact ⟨⟨by omega, by omega⟩, tag :: be16 delta, ⟨false, form⟩, rfl⟩
  split at last
  · rename_i tagged
    obtain ⟨same, rfl⟩ := pure_eq_ok.mp last
    cases same
    obtain rfl : tag = 251 := UInt8.toNat_inj.mp tagged
    exact ⟨trivial, _, ⟨false, .sameExtended delta⟩, rfl⟩
  split at last
  · obtain ⟨locals, _, taken, same⟩ := bind_eq_ok.mp last
    obtain ⟨length, -, rfl⟩ := (times_eq_ok VerificationType.read_inverts).mp taken
    obtain ⟨same, rfl⟩ := pure_eq_ok.mp same
    cases same
    have tagged : 251 + UInt8.ofNat locals.length = tag := by
      apply UInt8.toNat_inj.mp
      rw [UInt8.toNat_add, UInt8.toNat_ofNat', length]
      simp
      omega
    have form := FrameKind.Spelled.append delta locals
    rw [tagged] at form
    exact ⟨⟨by omega, by omega⟩, _, ⟨false, form⟩, by simp⟩
  · obtain ⟨locals, _, taken, last⟩ := bind_eq_ok.mp last
    obtain ⟨stack, _, taken', same⟩ := bind_eq_ok.mp last
    obtain ⟨⟨localsFit, -⟩, rfl⟩ := (table_inverts VerificationType.read_inverts _ _ _).mp taken
    obtain ⟨⟨stackFits, -⟩, rfl⟩ := (table_inverts VerificationType.read_inverts _ _ _).mp taken'
    obtain ⟨same, rfl⟩ := pure_eq_ok.mp same
    cases same
    obtain rfl : tag = 255 := UInt8.toNat_inj.mp (by simp; omega)
    exact ⟨⟨localsFit, stackFits⟩, _, ⟨false, .full delta locals stack⟩, by simp⟩

/-- A frame is read from each of its forms. -/
theorem readDelta_of_form {piece : Bytes} {delta : UInt16} {kind : FrameKind}
    (fits : kind.Fits) (form : kind.Form delta piece) (rest : Bytes) :
    readDelta (piece ++ rest) = .ok ((delta, kind), rest) := by
  obtain ⟨compact, spelled⟩ := form
  cases spelled with
  | @same delta small =>
      have tagged : delta.toUInt8.toNat = delta.toNat := by
        rw [UInt16.toNat_toUInt8]
        omega
      refine bind_eq_ok.mpr ⟨delta.toUInt8, rest, u8_eq_ok.mpr rfl, ?_⟩
      rw [if_pos (by omega), toUInt16_toUInt8 small]
      rfl
  | sameExtended =>
      refine bind_eq_ok.mpr ⟨251, be16 delta ++ rest, u8_eq_ok.mpr rfl, ?_⟩
      exact bind_eq_ok.mpr ⟨delta, rest, u16_eq_ok.mpr rfl, rfl⟩
  | @item delta small type =>
      have tagged : (64 + delta.toUInt8).toNat = 64 + delta.toNat := by
        rw [UInt8.toNat_add, UInt16.toNat_toUInt8]
        simp
        omega
      have back : (64 + delta.toUInt8 - 64).toUInt16 = delta := by
        rw [UInt8.add_comm, UInt8.add_sub_cancel, toUInt16_toUInt8 small]
      refine bind_eq_ok.mpr ⟨64 + delta.toUInt8, type.write ++ rest, u8_eq_ok.mpr rfl, ?_⟩
      rw [if_neg (by omega), if_pos (by omega), back]
      exact bind_eq_ok.mpr ⟨type, rest, VerificationType.read_inverts.read_write trivial rest, rfl⟩
  | itemExtended _ type =>
      refine bind_eq_ok.mpr ⟨247, be16 delta ++ (type.write ++ rest), u8_eq_ok.mpr (by simp), ?_⟩
      refine bind_eq_ok.mpr ⟨delta, type.write ++ rest, u16_eq_ok.mpr rfl, ?_⟩
      exact bind_eq_ok.mpr ⟨type, rest, VerificationType.read_inverts.read_write trivial rest, rfl⟩
  | chop _ count =>
      obtain ⟨some, few⟩ := fits
      obtain ⟨tagged, back⟩ := chopTag (show count.toNat ≤ 251 by omega)
      refine bind_eq_ok.mpr ⟨251 - count, be16 delta ++ rest, u8_eq_ok.mpr rfl, ?_⟩
      rw [if_neg (by omega), if_neg (by omega), if_neg (by omega)]
      refine bind_eq_ok.mpr ⟨delta, rest, u16_eq_ok.mpr rfl, ?_⟩
      rw [if_neg (by omega), if_pos (by omega), back]
      rfl
  | append _ locals =>
      obtain ⟨some, few⟩ := fits
      have tagged : (251 + UInt8.ofNat locals.length).toNat = 251 + locals.length := by
        rw [UInt8.toNat_add, UInt8.toNat_ofNat']
        simp
        omega
      refine bind_eq_ok.mpr ⟨251 + UInt8.ofNat locals.length,
        be16 delta ++ (locals.flatMap VerificationType.write ++ rest), u8_eq_ok.mpr (by simp), ?_⟩
      rw [if_neg (by omega), if_neg (by omega), if_neg (by omega)]
      refine bind_eq_ok.mpr ⟨delta, _, u16_eq_ok.mpr rfl, ?_⟩
      rw [if_neg (by omega), if_neg (by omega), if_neg (by omega), if_pos (by omega)]
      refine bind_eq_ok.mpr ⟨locals, rest, ?_, rfl⟩
      exact (times_eq_ok VerificationType.read_inverts).mpr ⟨by omega, fun _ _ => trivial, rfl⟩
  | full _ locals stack =>
      have table := table_inverts VerificationType.read_inverts
      refine bind_eq_ok.mpr ⟨255, be16 delta ++ (writeTable VerificationType.write locals ++
        (writeTable VerificationType.write stack ++ rest)), u8_eq_ok.mpr (by simp), ?_⟩
      refine bind_eq_ok.mpr ⟨delta, _, u16_eq_ok.mpr rfl, ?_⟩
      refine bind_eq_ok.mpr ⟨locals, _, table.read_write ⟨fits.1, fun _ _ => trivial⟩ _, ?_⟩
      exact bind_eq_ok.mpr ⟨stack, rest, table.read_write ⟨fits.2, fun _ _ => trivial⟩ _, rfl⟩

theorem readDelta_eq_ok {input rest : Bytes} {delta : UInt16} {kind : FrameKind} :
    readDelta input = .ok ((delta, kind), rest) ↔
      kind.Fits ∧ ∃ piece, kind.Form delta piece ∧ input = piece ++ rest := by
  constructor
  · exact form_of_readDelta
  · rintro ⟨fits, piece, form, rfl⟩
    exact readDelta_of_form fits form rest

/-! ## Rows of frames -/

/-- The frames of a table, each in a form that `Form` allows, with the delta that leads to it
from the offset of the frame before. -/
inductive Row (Form : UInt16 → FrameKind → Bytes → Prop) : Option Nat → List Frame → Bytes → Prop
    where
  | nil (previous : Option Nat) : Row Form previous [] []
  | cons {previous : Option Nat} {delta : UInt16} {frame : Frame} {frames : List Frame}
      {piece rest : Bytes} (fits : frame.kind.Fits) (form : Form delta frame.kind piece)
      (leads : frame.offset = offsetAfter previous delta.toNat)
      (others : Row Form (some frame.offset) frames rest) :
      Row Form previous (frame :: frames) (piece ++ rest)

theorem Row.imp {Form Form' : UInt16 → FrameKind → Bytes → Prop} {previous : Option Nat}
    {frames : List Frame} {bytes : Bytes} (row : Row Form previous frames bytes)
    (wider : ∀ delta kind piece, Form delta kind piece → Form' delta kind piece) :
    Row Form' previous frames bytes := by
  induction row with
  | nil previous => exact .nil previous
  | cons fits form leads _ ih => exact .cons fits (wider _ _ _ form) leads ih

theorem Row.fits {Form : UInt16 → FrameKind → Bytes → Prop} {previous : Option Nat}
    {frames : List Frame} {bytes : Bytes} (row : Row Form previous frames bytes) :
    ∀ frame ∈ frames, frame.kind.Fits := by
  induction row with
  | nil previous => exact fun frame member => absurd member List.not_mem_nil
  | cons fits _ _ _ ih => exact List.forall_mem_cons.mpr ⟨fits, ih⟩

theorem readOnto_eq_ok {n : Nat} {previous : Option Nat} {before all : List Frame}
    {input rest : Bytes} :
    readOnto n previous before input = .ok (all, rest) ↔
      ∃ frames bytes, frames.length = n ∧ all = before.reverse ++ frames ∧
        Row FrameKind.Form previous frames bytes ∧ input = bytes ++ rest := by
  induction n generalizing previous before input with
  | zero =>
      rw [readOnto]
      constructor
      · intro read
        cases read
        exact ⟨[], [], rfl, (List.append_nil _).symm, .nil previous, rfl⟩
      · rintro ⟨frames, bytes, empty, rfl, row, rfl⟩
        obtain rfl := List.length_eq_zero_iff.mp empty
        cases row
        rw [List.append_nil, List.nil_append]
  | succ n ih =>
      rw [readOnto]
      constructor
      · intro read
        cases first : readDelta input with
        | error fault =>
            rw [first] at read
            cases read
        | ok result =>
            obtain ⟨⟨delta, kind⟩, middle⟩ := result
            rw [first] at read
            obtain ⟨fits, piece, form, rfl⟩ := readDelta_eq_ok.mp first
            obtain ⟨frames, bytes, counted, rfl, row, rfl⟩ := ih.mp read
            refine ⟨⟨offsetAfter previous delta.toNat, kind⟩ :: frames, piece ++ bytes,
              congrArg (· + 1) counted, ?_, .cons fits form rfl row, ?_⟩
            · rw [List.reverse_cons, List.append_assoc, List.singleton_append]
            · rw [List.append_assoc]
      · rintro ⟨frames, bytes, counted, rfl, row, rfl⟩
        cases row with
        | nil => cases counted
        | @cons _ delta frame frames piece bytes fits form leads others =>
            rw [List.append_assoc, readDelta_of_form fits form]
            simp only [← leads]
            refine ih.mpr ⟨frames, bytes, Nat.succ.inj counted, ?_, others, rfl⟩
            rw [List.reverse_cons, List.append_assoc, List.singleton_append]

/-- A table is read exactly from a row of forms behind their number. -/
theorem readTable_eq_ok {input rest : Bytes} {frames : List Frame} :
    readTable input = .ok (frames, rest) ↔
      frames.length < 65536 ∧ ∃ bytes, Row FrameKind.Form none frames bytes ∧
        input = be16 (UInt16.ofNat frames.length) ++ (bytes ++ rest) := by
  unfold readTable
  simp only [bind_eq_ok, u16_eq_ok, readOnto_eq_ok]
  constructor
  · rintro ⟨count, _, rfl, frames, bytes, counted, rfl, row, rfl⟩
    have bound := count.toNat_lt
    refine ⟨by omega, bytes, row, ?_⟩
    rw [counted, UInt16.ofNat_toNat]
  · rintro ⟨few, bytes, row, rfl⟩
    refine ⟨_, _, rfl, frames, bytes, ?_, rfl, row, rfl⟩
    rw [UInt16.toNat_ofNat']
    omega

/-- The offsets rise along a row. -/
theorem Row.ordered {Form : UInt16 → FrameKind → Bytes → Prop} {previous : Option Nat}
    {frames : List Frame} {bytes : Bytes} (row : Row Form previous frames bytes) :
    (previous.toList ++ frames.map Frame.offset).Pairwise (· < ·) := by
  induction row with
  | nil previous => cases previous <;> simp
  | @cons previous delta frame frames piece rest fits form leads _ ih =>
      cases previous with
      | none => exact ih
      | some before =>
          have later : before < frame.offset := by
            rw [leads, offsetAfter]
            omega
          refine List.pairwise_cons.mpr ⟨fun offset member => ?_, ih⟩
          rcases List.mem_cons.mp member with rfl | member
          · exact later
          · exact Nat.lt_trans later ((List.pairwise_cons.mp ih).1 offset member)

/-- Adding up the deltas of a row of `n` frames stays below `n` times 65536. -/
theorem Row.offset_lt {Form : UInt16 → FrameKind → Bytes → Prop} {previous : Option Nat}
    {frames : List Frame} {bytes : Bytes} (row : Row Form previous frames bytes) :
    ∀ frame ∈ frames, frame.offset < offsetAfter previous 0 + 65536 * frames.length := by
  induction row with
  | nil previous => exact fun frame member => absurd member List.not_mem_nil
  | @cons previous delta first frames piece rest fits form leads _ ih =>
      have bound := delta.toNat_lt
      have reached : first.offset < offsetAfter previous 0 + 65536 := by
        rw [leads]
        cases previous <;> simp only [offsetAfter] <;> omega
      intro frame member
      rw [List.length_cons, Nat.mul_succ]
      rcases List.mem_cons.mp member with rfl | member
      · exact Nat.lt_of_lt_of_le reached (Nat.add_le_add_left (Nat.le_add_left _ _) _)
      · have later := ih frame member
        simp only [offsetAfter] at later
        omega

theorem leads_deltaAfter {previous : Option Nat} {offset : Nat} (small : offset < 65536)
    (later : ∀ before ∈ previous, before < offset) :
    offset = offsetAfter previous (deltaAfter previous offset).toNat := by
  cases previous with
  | none =>
      rw [offsetAfter, deltaAfter, UInt16.toNat_ofNat']
      omega
  | some before =>
      have less := later before rfl
      rw [offsetAfter, deltaAfter, UInt16.toNat_ofNat']
      omega

/-- Frames whose 16-bit offsets rise are written as a row of brief forms. -/
theorem row_write {previous : Option Nat} {pieces : List Bytes} {frames : List Frame}
    (fits : ∀ frame ∈ frames, frame.kind.Fits) (small : ∀ frame ∈ frames, frame.offset < 65536)
    (rising : (previous.toList ++ frames.map Frame.offset).Pairwise (· < ·)) :
    ∃ bytes, Row FrameKind.Brief previous frames bytes ∧
      writeOnto previous pieces frames = pieces.reverse.flatten ++ bytes := by
  induction frames generalizing previous pieces with
  | nil => exact ⟨[], .nil previous, (List.append_nil _).symm⟩
  | cons frame frames ih =>
      have later : ∀ before ∈ previous, before < frame.offset := by
        rintro before rfl
        exact (List.pairwise_cons.mp rising).1 _ List.mem_cons_self
      have others : (frame.offset :: frames.map Frame.offset).Pairwise (· < ·) := by
        cases previous with
        | none => exact rising
        | some before => exact (List.pairwise_cons.mp rising).2
      obtain ⟨bytes, row, written⟩ := @ih (some frame.offset)
        (frame.kind.write (deltaAfter previous frame.offset) :: pieces)
        (fun other member => fits other (List.mem_cons_of_mem _ member))
        (fun other member => small other (List.mem_cons_of_mem _ member)) others
      refine ⟨_, .cons (fits frame List.mem_cons_self) (frame.kind.brief_write _)
        (leads_deltaAfter (small frame List.mem_cons_self) later) row, ?_⟩
      rw [writeOnto, written]
      simp

end Frame

/-! ## Moving -/

namespace VerificationType

/-- The code offset that a type names. -/
def offset? : VerificationType → Option UInt16
  | uninitialized offset => some offset
  | _ => none

/-- The same type, with the offset it names sent through the map. -/
inductive Moves (map : OffsetMap) : VerificationType → VerificationType → Prop where
  | uninitialized {old new : UInt16} (sends : map.Sends old.toNat new.toNat) :
      Moves map (.uninitialized old) (.uninitialized new)
  | kept {type : VerificationType} (plain : type.offset? = none) : Moves map type type

variable {map : OffsetMap} {type moved : VerificationType}

theorem relocate_eq_ok (shrinks : map.Shrinks) :
    type.relocate map = .ok moved ↔ type.Moves map moved := by
  cases type with
  | uninitialized old =>
      unfold relocate
      rw [Sequencing.bind_eq_ok]
      constructor
      · rintro ⟨new, found, same⟩
        obtain rfl := Sequencing.pure_eq_ok.mp same
        exact .uninitialized (shrinks.find16_eq_ok.mp found)
      · intro moves
        cases moves with
        | uninitialized sends => exact ⟨_, shrinks.find16_eq_ok.mpr sends, rfl⟩
        | kept plain => cases plain
  | _ =>
      refine Sequencing.pure_eq_ok.trans ⟨?_, ?_⟩
      · rintro rfl
        exact .kept rfl
      · intro moves
        cases moves
        rfl

theorem exists_moves_iff (shrinks : map.Shrinks) :
    (∃ moved, type.Moves map moved) ↔ ∀ o ∈ type.offset?, ∃ m, map.Sends o.toNat m := by
  cases type with
  | uninitialized old =>
      constructor
      · rintro ⟨moved, moves⟩ o named
        obtain rfl := Option.some.inj named
        cases moves with
        | uninitialized sends => exact ⟨_, sends⟩
        | kept plain => cases plain
      · intro defined
        obtain ⟨m, sends⟩ := defined old rfl
        have bound := old.toNat_lt
        have shorter := shrinks _ _ sends
        refine ⟨.uninitialized (UInt16.ofNat m), .uninitialized ?_⟩
        rwa [UInt16.toNat_ofNat', Nat.mod_eq_of_lt (by omega)]
  | _ => exact iff_of_true ⟨_, .kept rfl⟩ fun o named => absurd named (Option.not_mem_none o)

end VerificationType

namespace FrameKind

/-- The types that a frame lists. -/
def types : FrameKind → List VerificationType
  | same => []
  | sameWithItem item => [item]
  | chop _ => []
  | append locals => locals
  | full locals stack => locals ++ stack

/-- The same kind of frame, with the types it lists moved. -/
inductive Moves (map : OffsetMap) : FrameKind → FrameKind → Prop where
  | same : Moves map .same .same
  | sameWithItem {item moved : VerificationType} (moves : item.Moves map moved) :
      Moves map (.sameWithItem item) (.sameWithItem moved)
  | chop (count : UInt8) : Moves map (.chop count) (.chop count)
  | append {locals moved : List VerificationType}
      (moves : List.Forall₂ (VerificationType.Moves map) locals moved) :
      Moves map (.append locals) (.append moved)
  | full {locals movedLocals stack movedStack : List VerificationType}
      (movesLocals : List.Forall₂ (VerificationType.Moves map) locals movedLocals)
      (movesStack : List.Forall₂ (VerificationType.Moves map) stack movedStack) :
      Moves map (.full locals stack) (.full movedLocals movedStack)

variable {map : OffsetMap} {kind moved : FrameKind}

theorem Moves.fits (moves : kind.Moves map moved) (fits : kind.Fits) : moved.Fits := by
  cases moves with
  | same => exact fits
  | sameWithItem => exact fits
  | chop => exact fits
  | append moves =>
      rw [Fits, moves.length_eq] at fits
      exact fits
  | full movesLocals movesStack =>
      rw [Fits, movesLocals.length_eq, movesStack.length_eq] at fits
      exact fits

theorem relocate_eq_ok (shrinks : map.Shrinks) :
    kind.relocate map = .ok moved ↔ kind.Moves map moved := by
  cases kind with
  | same =>
      refine Sequencing.pure_eq_ok.trans ⟨?_, ?_⟩
      · rintro rfl
        exact .same
      · intro moves
        cases moves
        rfl
  | chop count =>
      refine Sequencing.pure_eq_ok.trans ⟨?_, ?_⟩
      · rintro rfl
        exact .chop count
      · intro moves
        cases moves
        rfl
  | sameWithItem item =>
      simp only [relocate, Sequencing.bind_eq_ok, Sequencing.pure_eq_ok,
        VerificationType.relocate_eq_ok shrinks]
      constructor
      · rintro ⟨item', moves, rfl⟩
        exact .sameWithItem moves
      · intro moves
        cases moves with
        | sameWithItem moves => exact ⟨_, moves, rfl⟩
  | append locals =>
      simp only [relocate, Sequencing.bind_eq_ok, Sequencing.pure_eq_ok, Sequencing.mapM_eq_ok,
        VerificationType.relocate_eq_ok shrinks]
      constructor
      · rintro ⟨locals', moves, rfl⟩
        exact .append moves
      · intro moves
        cases moves with
        | append moves => exact ⟨_, moves, rfl⟩
  | full locals stack =>
      simp only [relocate, Sequencing.bind_eq_ok, Sequencing.pure_eq_ok, Sequencing.mapM_eq_ok,
        VerificationType.relocate_eq_ok shrinks]
      constructor
      · rintro ⟨locals', movesLocals, stack', movesStack, rfl⟩
        exact .full movesLocals movesStack
      · intro moves
        cases moves with
        | full movesLocals movesStack => exact ⟨_, movesLocals, _, movesStack, rfl⟩

theorem exists_moves_iff :
    (∃ moved, kind.Moves map moved) ↔ ∀ type ∈ kind.types, ∃ moved, type.Moves map moved := by
  cases kind with
  | same => exact iff_of_true ⟨_, .same⟩ fun type listed => absurd listed List.not_mem_nil
  | chop count =>
      exact iff_of_true ⟨_, .chop count⟩ fun type listed => absurd listed List.not_mem_nil
  | sameWithItem item =>
      rw [types, List.forall_mem_singleton]
      constructor
      · rintro ⟨moved, moves⟩
        cases moves with
        | sameWithItem moves => exact ⟨_, moves⟩
      · rintro ⟨moved, moves⟩
        exact ⟨_, .sameWithItem moves⟩
  | append locals =>
      rw [types, ← Sequencing.exists_rounds_iff]
      constructor
      · rintro ⟨moved, moves⟩
        cases moves with
        | append moves => exact ⟨_, moves⟩
      · rintro ⟨moved, moves⟩
        exact ⟨_, .append moves⟩
  | full locals stack =>
      rw [types, List.forall_mem_append, ← Sequencing.exists_rounds_iff,
        ← Sequencing.exists_rounds_iff]
      constructor
      · rintro ⟨moved, moves⟩
        cases moves with
        | full movesLocals movesStack => exact ⟨⟨_, movesLocals⟩, _, movesStack⟩
      · rintro ⟨⟨movedLocals, movesLocals⟩, movedStack, movesStack⟩
        exact ⟨_, .full movesLocals movesStack⟩

end FrameKind

namespace Frame

/-- The code offsets that a frame names: its own, and those of objects not yet created. -/
def offsets (frame : Frame) : List Nat :=
  frame.offset :: (frame.kind.types.filterMap VerificationType.offset?).map UInt16.toNat

/-- The same frame, with every offset it names sent through the map. -/
def Moves (map : OffsetMap) (frame moved : Frame) : Prop :=
  map.Sends frame.offset moved.offset ∧ frame.kind.Moves map moved.kind

variable {map : OffsetMap}

theorem relocate_eq_ok {frame moved : Frame} (shrinks : map.Shrinks) :
    frame.relocate map = .ok moved ↔ frame.Moves map moved := by
  simp only [relocate, Sequencing.bind_eq_ok, Sequencing.pure_eq_ok, OffsetMap.find_eq_ok,
    FrameKind.relocate_eq_ok shrinks]
  constructor
  · rintro ⟨offset, sends, kind, moves, rfl⟩
    exact ⟨sends, moves⟩
  · rintro ⟨sends, moves⟩
    exact ⟨_, sends, _, moves, rfl⟩

theorem exists_moves_iff {frame : Frame} (shrinks : map.Shrinks) :
    (∃ moved, frame.Moves map moved) ↔ ∀ o ∈ frame.offsets, ∃ m, map.Sends o m := by
  have kinds := @FrameKind.exists_moves_iff map frame.kind
  simp only [VerificationType.exists_moves_iff shrinks] at kinds
  simp only [offsets, List.forall_mem_cons, List.forall_mem_map, List.mem_filterMap]
  constructor
  · rintro ⟨moved, sends, moves⟩
    refine ⟨⟨_, sends⟩, ?_⟩
    rintro o ⟨type, listed, named⟩
    exact kinds.mp ⟨_, moves⟩ type listed o named
  · rintro ⟨⟨offset, sends⟩, others⟩
    obtain ⟨kind, moves⟩ := kinds.mpr fun type listed o named => others o ⟨type, listed, named⟩
    exact ⟨⟨offset, kind⟩, sends, moves⟩

/-- Frames that were in the order of their offsets still are. -/
theorem ordered_of_moves {code : List Placed} {length : Nat} (carries : map.Carries code length)
    {frames moved : List Frame} (moves : List.Forall₂ (Moves map) frames moved)
    (rising : (frames.map Frame.offset).Pairwise (· < ·)) :
    (moved.map Frame.offset).Pairwise (· < ·) := by
  induction moves with
  | nil => exact .nil
  | @cons frame frame' frames moved first others ih =>
      obtain ⟨behind, rising⟩ := List.pairwise_cons.mp rising
      refine List.pairwise_cons.mpr ⟨List.forall_mem_map.mpr fun other member => ?_, ih rising⟩
      obtain ⟨old, found, moves⟩ := Sequencing.round_of_mem others member
      exact (carries.ordered first.1 moves.1).mp (behind _ (List.mem_map_of_mem found))

/-- Moved frames of a table are written as a row of brief forms. -/
theorem row_of_moves {code : List Placed} {length : Nat} (carries : map.Carries code length)
    (short : length < 65536) {frames moved : List Frame} {bytes : Bytes}
    (row : Row FrameKind.Form none frames bytes)
    (moves : List.Forall₂ (Moves map) frames moved) :
    ∃ bytes', Row FrameKind.Brief none moved bytes' ∧ writeOnto none [] moved = bytes' := by
  refine row_write (fun frame member => ?_) (fun frame member => ?_)
    (ordered_of_moves carries moves row.ordered)
  · obtain ⟨old, found, moves⟩ := Sequencing.round_of_mem moves member
    exact moves.2.fits (row.fits old found)
  · obtain ⟨old, found, moves⟩ := Sequencing.round_of_mem moves member
    have within := carries.within _ _ moves.1
    have shorter := carries.shrinks _ _ moves.1
    omega

theorem relocateTable_eq_ok (shrinks : map.Shrinks) {info moved : Bytes} :
    relocateTable map info = .ok moved ↔
      ∃ frames frames', readAttribute attributeName readTable info = .ok frames ∧
        List.Forall₂ (Moves map) frames frames' ∧ moved = writeAll frames' := by
  simp only [relocateTable, Sequencing.bind_eq_ok, Sequencing.pure_eq_ok, Sequencing.mapM_eq_ok,
    relocate_eq_ok shrinks]
  constructor
  · rintro ⟨frames, read, frames', moves, rfl⟩
    exact ⟨frames, frames', read, moves, rfl⟩
  · rintro ⟨frames, frames', read, moves, rfl⟩
    exact ⟨frames, read, frames', moves, rfl⟩

/-- A table can be moved exactly if it reads and names stops only. -/
theorem exists_relocateTable_iff {code : List Placed} {length : Nat}
    (carries : map.Carries code length) {info : Bytes} :
    (∃ moved, relocateTable map info = .ok moved) ↔
      ∃ frames, readAttribute attributeName readTable info = .ok frames ∧
        ∀ frame ∈ frames, ∀ o ∈ frame.offsets, o ∈ stops code length := by
  have movable (frames : List Frame) : (∃ frames', List.Forall₂ (Moves map) frames frames') ↔
      ∀ frame ∈ frames, ∀ o ∈ frame.offsets, o ∈ stops code length := by
    rw [Sequencing.exists_rounds_iff]
    simp only [exists_moves_iff carries.shrinks, carries.defined]
  simp only [← movable, relocateTable_eq_ok carries.shrinks]
  constructor
  · rintro ⟨moved, frames, frames', read, moves, _⟩
    exact ⟨frames, read, frames', moves⟩
  · rintro ⟨frames, read, frames', moves⟩
    exact ⟨_, frames, frames', read, moves, rfl⟩

/-- A moved table is the moved frames in a row of brief forms. -/
theorem row_of_relocateTable {code : List Placed} {length : Nat}
    (carries : map.Carries code length) (short : length < 65536) {info moved : Bytes}
    (ok : relocateTable map info = .ok moved) :
    ∃ frames frames' row, readAttribute attributeName readTable info = .ok frames ∧
      List.Forall₂ (Moves map) frames frames' ∧ frames'.length < 65536 ∧
      Row FrameKind.Brief none frames' row ∧
      moved = be16 (UInt16.ofNat frames'.length) ++ row := by
  obtain ⟨frames, frames', read, moves, rfl⟩ := (relocateTable_eq_ok carries.shrinks).mp ok
  obtain ⟨few, bytes, row, -⟩ := readTable_eq_ok.mp (readAttribute_iff_read.mp read)
  obtain ⟨bytes', row', written⟩ := row_of_moves carries short row moves
  refine ⟨frames, frames', bytes', read, moves, moves.length_eq ▸ few, row', ?_⟩
  rw [writeAll, written]

/-- A row of brief forms behind their number reads as its frames. -/
theorem readTable_of_row {frames : List Frame} {row : Bytes} (few : frames.length < 65536)
    (brief : Row FrameKind.Brief none frames row) :
    readAttribute attributeName readTable (be16 (UInt16.ofNat frames.length) ++ row) =
      .ok frames := by
  have forms := brief.imp fun delta kind piece ⟨compact, spelled, _⟩ =>
    (⟨compact, spelled⟩ : FrameKind.Form delta kind piece)
  exact readAttribute_iff_read.mpr
    (readTable_eq_ok.mpr ⟨few, row, forms, by rw [List.append_nil]⟩)

/-- Moving a table along with the code after some of its dynamic calls became static ones. The
table can be moved exactly if it reads and every offset it names is a stop of the old code.
It then reads back as the same frames with every offset sent through the map, in rising order
and each in the compact form if there is one for its delta. No sum of deltas leaves 32 bits,
also of a table that is refused later on. -/
theorem relocateTable_moves {code bytes : Bytes} {before after : List Placed} {map : OffsetMap}
    (short : code.length ≤ 65535) (decoded : decode code = .ok before)
    (replaced : List.Forall₂ Placed.Replaced before after)
    (assembled : assemble after code.length = .ok (bytes, map)) (info : Bytes) :
    ((∃ moved, relocateTable map info = .ok moved) ↔
      ∃ frames, readAttribute attributeName readTable info = .ok frames ∧
        ∀ frame ∈ frames, ∀ o ∈ frame.offsets, o ∈ stops before code.length) ∧
    (∀ moved, relocateTable map info = .ok moved →
      ∃ frames frames' row, readAttribute attributeName readTable info = .ok frames ∧
        readAttribute attributeName readTable moved = .ok frames' ∧
        List.Forall₂ (Moves map) frames frames' ∧
        (frames'.map Frame.offset).Pairwise (· < ·) ∧
        moved = be16 (UInt16.ofNat frames'.length) ++ row ∧
        Row FrameKind.Brief none frames' row) ∧
    ∀ n ≤ 65535, ∀ input frames rest, readOnto n none [] input = .ok (frames, rest) →
      ∀ frame ∈ frames, frame.offset < 4294967296 := by
  obtain ⟨rfl, -⟩ := assemble_eq_ok.mp assembled
  have carries := carries_layOut decoded replaced
  refine ⟨exists_relocateTable_iff carries, fun moved ok => ?_, ?_⟩
  · obtain ⟨frames, frames', row, read, moves, few, brief, rfl⟩ :=
      row_of_relocateTable carries (by omega) ok
    exact ⟨frames, frames', row, read, readTable_of_row few brief, moves, brief.ordered, rfl, brief⟩
  · intro n most input frames rest read frame member
    obtain ⟨frames, bytes, counted, rfl, row, -⟩ := readOnto_eq_ok.mp read
    have bound := row.offset_lt frame member
    rw [counted, offsetAfter] at bound
    omega

/-- Two bytes less in front of a switch become two bytes more of padding. The frame behind the
switch stays where it is while the frame at the switch moves, so the delta between them grows
out of the tag. -/
theorem relocateTable_moves_around_switch :
    let code : Bytes := [0xBA, 0, 1, 0, 0, 0, 0, 0xAA, 0, 0, 0, 64, 0, 0, 0, 0, 0, 0, 0, 11] ++
      (List.replicate 12 [0, 0, 0, 61]).flatten ++ [0, 0, 0, 0xB1]
    let rest : List Placed := [⟨5, .plain 0 []⟩, ⟨6, .plain 0 []⟩,
      ⟨7, .tableSwitch 71 0 (List.replicate 12 68)⟩, ⟨68, .plain 0 []⟩, ⟨69, .plain 0 []⟩,
      ⟨70, .plain 0 []⟩, ⟨71, .plain 0xB1 []⟩]
    let map := layOut (⟨0, .call Opcode.invokeStatic 9⟩ :: rest) code.length
    decode code = .ok (⟨0, .dynamicCall 1⟩ :: rest) ∧
      (∃ bytes, assemble (⟨0, .call Opcode.invokeStatic 9⟩ :: rest) code.length =
        .ok (bytes, map)) ∧
      relocateTable map [0, 2, 7, 127, 8, 0, 7] = .ok [0, 2, 5, 247, 0, 65, 8, 0, 5] ∧
      ∃ frames', readAttribute attributeName readTable [0, 2, 5, 247, 0, 65, 8, 0, 5] =
          .ok frames' ∧
        List.Forall₂ (Moves map)
          [⟨7, .same⟩, ⟨71, .sameWithItem (.uninitialized 7)⟩] frames' := by
  intro code rest map
  have decoded : decode code = .ok (⟨0, .dynamicCall 1⟩ :: rest) := by decide +kernel
  have replaced : List.Forall₂ Placed.Replaced (⟨0, .dynamicCall 1⟩ :: rest)
      (⟨0, .call Opcode.invokeStatic 9⟩ :: rest) :=
    .cons (.call 0 1 9) (List.forall₂_same.mpr fun p _ => .kept p)
  obtain ⟨lands, shrinks⟩ := sends_layOut decoded replaced
  have start : map.Sends 7 5 := (lands 7 5).mpr (by decide)
  have target : map.Sends 68 68 := (lands 68 68).mpr (by decide)
  have last : map.Sends 71 71 := (lands 71 71).mpr (by decide)
  have switch : Placed.encode map 5 ⟨7, .tableSwitch 71 0 (List.replicate 12 68)⟩ =
      .ok ([0xAA, 0, 0, 0, 0, 0, 66, 0, 0, 0, 0, 0, 0, 0, 11] ++
        (List.replicate 12 [0, 0, 0, 63]).flatten) := by
    simp only [Placed.encode, Placed.far, Placed.distance, OffsetMap.find_eq_ok.mpr target,
      OffsetMap.find_eq_ok.mpr last, List.replicate, List.mapM_cons, List.mapM_nil]
    rfl
  have assembled : ∃ bytes, assemble (⟨0, .call Opcode.invokeStatic 9⟩ :: rest) code.length =
      .ok (bytes, map) :=
    ⟨_, assemble_eq_ok.mpr ⟨rfl, .cons rfl (.cons rfl (.cons rfl (.cons switch (.cons rfl (.cons rfl
      (.cons rfl (.cons rfl (.nil _))))))))⟩⟩
  have read : readAttribute attributeName readTable [0, 2, 7, 127, 8, 0, 7] =
      .ok [⟨7, .same⟩, ⟨71, .sameWithItem (.uninitialized 7)⟩] := by decide +kernel
  have relocated : relocateTable map [0, 2, 7, 127, 8, 0, 7] =
      .ok [0, 2, 5, 247, 0, 65, 8, 0, 5] :=
    (relocateTable_eq_ok shrinks).mpr ⟨_, [⟨5, .same⟩, ⟨71, .sameWithItem (.uninitialized 5)⟩],
      read, .cons ⟨start, .same⟩ (.cons ⟨last, .sameWithItem (.uninitialized start)⟩ .nil), rfl⟩
  obtain ⟨bytes, ok⟩ := assembled
  obtain ⟨frames, frames', row, again, read', moves, -⟩ :=
    (relocateTable_moves (by decide) decoded replaced ok [0, 2, 7, 127, 8, 0, 7]).2.1 _ relocated
  cases read.symm.trans again
  exact ⟨decoded, ⟨bytes, ok⟩, relocated, frames', read', moves⟩

end Frame

end Downlevel
