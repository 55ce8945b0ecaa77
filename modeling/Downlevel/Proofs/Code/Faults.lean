/-
# Downlevel.Proofs.Code.Faults — which target stops the assembler

The jumps of a body are the targets of its instructions in their order, the fallback of a
switch before its other targets. A jump misses (`Misses`) if its target is no stop, or if it is
a branch with a 16-bit displacement that is too short for where the two ends went. Assembling
fails exactly with the error of the first jump that misses (`assemble_eq_error`). A 32-bit
displacement always suffices, because code shorter than 2^31 bytes does not grow.

A branch that was decoded did reach its target. It can only miss if its ends have moved apart:
then a switch starts between them, and there were at most two bytes to spare
(`beyond_of_stretch`).
-/
import Mathlib.Data.List.Nodup
import Downlevel.Proofs.Code.Drift
import Downlevel.Proofs.Code.Pieces

namespace Downlevel

set_option autoImplicit false

open Sequencing

/-! ## Jumps -/

/-- The instruction is a branch with a 16-bit displacement. -/
def Instruction.IsNear (instruction : Instruction) : Prop :=
  ∃ opcode target, instruction = .branch opcode target ∧ Opcode.isFar opcode = false

/-- The targets of the instructions in their order, each with the instruction that names it. -/
def jumps (code : List Placed) : List (Placed × Nat) :=
  code.flatMap fun p => p.instruction.targets.map fun target => (p, target)

theorem mem_jumps {code : List Placed} {p : Placed} {target : Nat} :
    (p, target) ∈ jumps code ↔ p ∈ code ∧ target ∈ p.instruction.targets := by
  simp [jumps]

theorem jumps_cons (p : Placed) (code : List Placed) :
    jumps (p :: code) = p.instruction.targets.map (fun target => (p, target)) ++ jumps code :=
  List.flatMap_cons

/-- Neither kind of call names a target. -/
theorem jumps_of_replaced {before after : List Placed}
    (replaced : List.Forall₂ Placed.Replaced before after) : jumps after = jumps before := by
  induction replaced with
  | nil => rfl
  | @cons p q before after first _ ih =>
      simp only [jumps, List.flatMap_cons] at ih ⊢
      rw [ih]
      cases first with
      | kept => rfl
      | call => rfl

/-- The displacement does not fit 16 bits. -/
def BeyondNear (displacement : Int) : Prop :=
  displacement < -32768 ∨ 32767 < displacement

/-- Why the jump to a target cannot be written: the target is no stop of the code, or it went
too far away for a branch with a 16-bit displacement. -/
inductive Misses (map : OffsetMap) (code : List Placed) (length : Nat) :
    Placed × Nat → AssembleError → Prop where
  | stray {p : Placed} {target : Nat} (nowhere : target ∉ stops code length) :
      Misses map code length (p, target) (.stray (.badOffset target))
  | outOfRange {p : Placed} {target start moved : Nat} (near : p.instruction.IsNear)
      (sends : map.Sends p.offset start) (sendsTarget : map.Sends target moved)
      (beyond : BeyondNear ((moved : Int) - start)) :
      Misses map code length (p, target) (.outOfRange p.offset)

/-! ## Encoding -/

section Encoding

variable {map : OffsetMap} {code : List Placed} {length position : Nat} {p : Placed}

theorem Placed.distance_eq_error (carries : map.Carries code length) {target : Nat}
    {e : AssembleError} : distance map position target = .error e ↔
      target ∉ stops code length ∧ e = .stray (.badOffset target) := by
  rw [← carries.defined, not_exists]
  unfold distance OffsetMap.find OffsetMap.Sends
  cases map.find? target with
  | none => simp [eq_comm]
  | some moved => simp

theorem Placed.near_eq_error (carries : map.Carries code length)
    (sends : map.Sends p.offset position) (isNear : p.instruction.IsNear) {target : Nat}
    {e : AssembleError} :
    near map position p.offset target = .error e ↔ Misses map code length (p, target) e := by
  unfold near
  rw [bind_eq_error]
  constructor
  · rintro (failed | ⟨d, measured, failed⟩)
    · obtain ⟨nowhere, rfl⟩ := (distance_eq_error carries).mp failed
      exact .stray nowhere
    · obtain ⟨moved, sendsTarget, rfl⟩ := distance_eq_ok.mp measured
      split at failed
      · cases failed
      · cases failed
        refine .outOfRange isNear sends sendsTarget ?_
        unfold BeyondNear
        omega
  · intro misses
    cases misses with
    | stray nowhere => exact .inl ((distance_eq_error carries).mpr ⟨nowhere, rfl⟩)
    | @outOfRange _ _ start moved _ sends' sendsTarget beyond =>
        obtain rfl : start = position := Option.some.inj (sends'.symm.trans sends)
        refine .inr ⟨_, distance_eq_ok.mpr ⟨moved, sendsTarget, rfl⟩, ?_⟩
        unfold BeyondNear at beyond
        rw [if_neg (by omega)]
        rfl

theorem Placed.far_eq_error (carries : map.Carries code length) (short : length < 2147483648)
    (sends : map.Sends p.offset position) (isFar : ¬ p.instruction.IsNear) {target : Nat}
    {e : AssembleError} :
    far map position p.offset target = .error e ↔ Misses map code length (p, target) e := by
  have small {o m : Nat} (sends : map.Sends o m) : m < 2147483648 := by
    have shrunk := carries.shrinks o m sends
    have inside := carries.within o m sends
    omega
  unfold far
  rw [bind_eq_error]
  constructor
  · rintro (failed | ⟨d, measured, failed⟩)
    · obtain ⟨nowhere, rfl⟩ := (distance_eq_error carries).mp failed
      exact .stray nowhere
    · obtain ⟨moved, sendsTarget, rfl⟩ := distance_eq_ok.mp measured
      have fromSmall := small sends
      have toSmall := small sendsTarget
      rw [if_pos (by omega)] at failed
      cases failed
  · intro misses
    cases misses with
    | stray nowhere => exact .inl ((distance_eq_error carries).mpr ⟨nowhere, rfl⟩)
    | outOfRange near => exact absurd near isFar

/-- An instruction cannot be encoded where the map sends it on account of its first target that
misses. -/
theorem Placed.encode_eq_error (carries : map.Carries code length)
    (short : length < 2147483648) (sends : map.Sends p.offset position) {e : AssembleError} :
    p.encode map position = .error e ↔
      First (fun target => Misses map code length (p, target)) p.instruction.targets e := by
  obtain ⟨offset, instruction⟩ := p
  have nothing {bytes : Bytes} : (pure bytes : Except AssembleError Bytes) = .error e ↔
      First (fun target => Misses map code length (⟨offset, instruction⟩, target)) [] e := by
    constructor
    · intro impossible
      cases impossible
    · intro first
      exact absurd first not_first_nil
  unfold encode
  cases instruction with
  | plain opcode operands => exact nothing
  | load opcode index => exact nothing
  | call opcode index => exact nothing
  | dynamicCall index => exact nothing
  | branch opcode target =>
      rw [Instruction.targets, first_singleton]
      by_cases isFar : Opcode.isFar opcode = true
      · have notNear : ¬ (Instruction.branch opcode target).IsNear := by
          rintro ⟨_, _, same, near⟩
          cases same
          rw [isFar] at near
          cases near
        simp only [isFar, if_true]
        rw [bind_pure_eq_error]
        exact far_eq_error carries short sends notNear
      · have near : (Instruction.branch opcode target).IsNear :=
          ⟨opcode, target, rfl, Bool.eq_false_iff.mpr isFar⟩
        simp only [isFar]
        exact bind_pure_eq_error.trans (near_eq_error carries sends near)
  | tableSwitch fallback low targets =>
      have notNear : ¬ (Instruction.tableSwitch fallback low targets).IsNear := by
        rintro ⟨_, _, impossible, -⟩
        cases impossible
      have far_iff (target : Nat) := @far_eq_error _ _ _ _ _ carries short sends notNear target
      rw [Instruction.targets, first_cons]
      simp only [← far_iff fallback]
      refine bind_eq_error_of fun first _ => bind_pure_eq_error.trans ?_
      rw [mapM_eq_error]
      exact First.congr fun target _ e => far_iff target
  | lookupSwitch fallback pairs =>
      have notNear : ¬ (Instruction.lookupSwitch fallback pairs).IsNear := by
        rintro ⟨_, _, impossible, -⟩
        cases impossible
      have far_iff (target : Nat) := @far_eq_error _ _ _ _ _ carries short sends notNear target
      rw [Instruction.targets, first_cons, first_map]
      simp only [← far_iff fallback]
      refine bind_eq_error_of fun first _ => bind_pure_eq_error.trans ?_
      rw [mapM_eq_error]
      exact First.congr fun pair _ e => bind_pure_eq_error.trans (far_iff pair.2)

theorem encodeOnto_eq_error (carries : map.Carries code length) (short : length < 2147483648)
    {row : List Placed} {pieces : List Bytes}
    (encodable : ∀ p ∈ row, p.instruction.Encodable)
    (lands : ∀ o m, (o, m) ∈ (stops row length).zip (landings row position) → map.Sends o m)
    {e : AssembleError} :
    encodeOnto map position pieces row = .error e ↔ First (Misses map code length) (jumps row) e := by
  induction row generalizing position pieces with
  | nil =>
      constructor
      · intro impossible
        cases impossible
      · intro first
        exact absurd first not_first_nil
  | cons p row ih =>
      have sends : map.Sends p.offset position := lands _ _ List.mem_cons_self
      have here (e : AssembleError) : p.encode map position = .error e ↔
          First (Misses map code length) (p.instruction.targets.map fun target => (p, target)) e :=
        (Placed.encode_eq_error carries short sends).trans first_map.symm
      have split : encodeOnto map position pieces (p :: row) = p.encode map position >>= fun bytes =>
          encodeOnto map (position + bytes.length) (bytes :: pieces) row := by
        rw [encodeOnto]
        cases p.encode map position <;> rfl
      rw [split, jumps_cons, first_append, ← not_first_iff]
      simp only [← here]
      refine bind_eq_error_of fun bytes encoded => ?_
      have size := Placed.length_of_encode carries.shrinks (encodable p List.mem_cons_self) encoded
      rw [stops_cons, landings, List.zip_cons_cons, ← size] at lands
      exact ih (fun q held => encodable q (List.mem_cons_of_mem p held))
        fun o m held => lands o m (List.mem_cons_of_mem _ held)

end Encoding

/-! ## The assembler -/

/-- No two instructions of a row stand at the same offset. -/
theorem Tiles.eq_of_offset_eq {offset : Nat} {bytes : Bytes} {code : List Placed}
    (tiles : Tiles offset bytes code) {p q : Placed} (held : p ∈ code) (held' : q ∈ code)
    (same : p.offset = q.offset) : p = q := by
  have distinct : (code.map Placed.offset).Nodup :=
    (List.pairwise_append.mp tiles.stops_ordered.2).1.imp fun less => Nat.ne_of_lt less
  exact List.inj_on_of_nodup_map distinct held held' same

section Assembling

variable {code : Bytes} {before after : List Placed} (decoded : decode code = .ok before)
  (replaced : List.Forall₂ Placed.Replaced before after)
include decoded replaced

/-- Assembling fails exactly with the error of the first jump that misses. -/
theorem assemble_eq_error (short : code.length < 2147483648) {e : AssembleError} :
    assemble after code.length = .error e ↔
      First (Misses (layOut after code.length) before code.length) (jumps before) e := by
  have carries := carries_layOut decoded replaced
  have encodable := encodable_of_replaced (decode_eq_ok.mp decoded).encodable replaced
  have lands (o m : Nat) := ((sends_layOut decoded replaced).1 o m).mpr
  rw [← jumps_of_replaced replaced, ← encodeOnto_eq_error carries short encodable lands]
  unfold assemble
  cases encoded : encodeOnto (layOut after code.length) 0 [] after with
  | error e' => simp [encoded]
  | ok bytes => simp [encoded]

/-- A branch with a 16-bit displacement that no longer reaches its target: the two have moved
apart, so a switch starts between them, and at most two bytes were to spare. -/
theorem beyond_of_stretch {offset target start moved : Nat} {opcode : UInt8}
    (held : ⟨offset, .branch opcode target⟩ ∈ before) (near : Opcode.isFar opcode = false)
    (sends : (layOut after code.length).Sends offset start)
    (sendsTarget : (layOut after code.length).Sends target moved)
    (beyond : BeyondNear ((moved : Int) - start)) :
    (32765 < (target : Int) - offset ∨ (target : Int) - offset < -32766) ∧
      ∃ q ∈ before, q.instruction.IsSwitch ∧
        (offset < q.offset ∧ q.offset < target ∨ target ≤ q.offset ∧ q.offset < offset) := by
  have tiles := decode_eq_ok.mp decoded
  have reached : -32768 ≤ (target : Int) - offset ∧ (target : Int) - offset ≤ 32767 := by
    obtain ⟨_, piece, _, _, _, encoded⟩ := tiles.piece _ held
    cases encoded with
    | @branch _ w _ _ reaches =>
        have ends := reaches.1
        have least := w.toInt16.le_toInt
        have most := w.toInt16.toInt_lt
        unfold Instruction.displacement16 at ends
        simp only at ends
        omega
    | branchFar shape =>
        rw [Instruction.isFar_iff_branchFar.mpr shape] at near
        cases near
  have order := (carries_layOut decoded replaced).ordered sendsTarget sends
  unfold BeyondNear at beyond
  rcases Nat.lt_or_ge target offset with backward | forward
  · obtain ⟨close, kept⟩ :=
      stretch_layOut decoded replaced sendsTarget sends (Nat.le_of_lt backward)
    refine ⟨.inr (by omega), ?_⟩
    by_contra none
    have still := kept fun q qHeld starts ends switch => none ⟨q, qHeld, switch, .inr ⟨starts, ends⟩⟩
    omega
  · obtain ⟨close, kept⟩ := stretch_layOut decoded replaced sends sendsTarget forward
    refine ⟨.inl (by omega), ?_⟩
    by_contra none
    have still := kept fun q qHeld starts ends switch => by
      rcases Nat.eq_or_lt_of_le starts with same | starts
      · have branch := tiles.eq_of_offset_eq held qHeld same
        subst branch
        rcases switch with ⟨_, _, _, impossible⟩ | ⟨_, _, impossible⟩
        · cases impossible
        · cases impossible
      · exact none ⟨q, qHeld, switch, .inl ⟨starts, ends⟩⟩
    omega

/-- Assembling a decoded list, with any of its dynamic calls made static, fails exactly if the
target of some branch or switch is no stop of the code, or some branch with a 16-bit
displacement does not reach its target any more. It fails with the error of the first jump of
which that is true. A branch is out of range only if at most two bytes were to spare and a
switch starts between its ends, the target of a backward branch included. -/
theorem assemble_fails_at_first_miss (short : code.length < 2147483648) :
    (∀ e, assemble after code.length = .error e ↔
      First (Misses (layOut after code.length) before code.length) (jumps before) e) ∧
    ((∃ e, assemble after code.length = .error e) ↔
      ∃ p ∈ before, ∃ target ∈ p.instruction.targets, target ∉ stops before code.length ∨
        p.instruction.IsNear ∧ ∃ start moved, (layOut after code.length).Sends p.offset start ∧
          (layOut after code.length).Sends target moved ∧ BeyondNear ((moved : Int) - start)) ∧
    ∀ offset, assemble after code.length = .error (.outOfRange offset) →
      ∃ (opcode : UInt8) (target : Nat), ⟨offset, .branch opcode target⟩ ∈ before ∧
        Opcode.isFar opcode = false ∧
        (32765 < (target : Int) - offset ∨ (target : Int) - offset < -32766) ∧
        ∃ q ∈ before, q.instruction.IsSwitch ∧
          (offset < q.offset ∧ q.offset < target ∨ target ≤ q.offset ∧ q.offset < offset) := by
  have fails {e : AssembleError} := assemble_eq_error decoded replaced short (e := e)
  refine ⟨fun e => fails, ?_, fun offset failed => ?_⟩
  · simp only [fails]
    rw [exists_first_iff]
    constructor
    · rintro ⟨⟨p, target⟩, jump, e, misses⟩
      obtain ⟨held, named⟩ := mem_jumps.mp jump
      refine ⟨p, held, target, named, ?_⟩
      cases misses with
      | stray nowhere => exact .inl nowhere
      | outOfRange near sends sendsTarget beyond =>
          exact .inr ⟨near, _, _, sends, sendsTarget, beyond⟩
    · rintro ⟨p, held, target, named, faulty⟩
      refine ⟨(p, target), mem_jumps.mpr ⟨held, named⟩, ?_⟩
      rcases faulty with nowhere | ⟨near, start, moved, sends, sendsTarget, beyond⟩
      · exact ⟨_, .stray nowhere⟩
      · exact ⟨_, .outOfRange near sends sendsTarget beyond⟩
  · obtain ⟨⟨p, target⟩, jump, misses⟩ := (fails.mp failed).exists_mem
    obtain ⟨held, named⟩ := mem_jumps.mp jump
    cases misses with
    | outOfRange isNear sends sendsTarget beyond =>
        obtain ⟨opcode, target', branch, near⟩ := isNear
        obtain ⟨offset, instruction⟩ := p
        simp only at branch
        subst branch
        rw [List.mem_singleton.mp named] at sendsTarget
        exact ⟨opcode, target', held, near,
          beyond_of_stretch decoded replaced held near sends sendsTarget beyond⟩

end Assembling

/-- A branch over a switch of 8187 rows that just reaches its target. With the call in front of
it two bytes shorter the switch needs two bytes of padding, so the target stays where it is
while the branch does not. -/
theorem assemble_fails_at_first_miss_stretched :
    let rows : List Nat := List.replicate 8187 32772
    let others : List Placed := [⟨5, .branch 0xA7 32772⟩, ⟨8, .plain 0x11 [0, 0]⟩,
      ⟨11, .tableSwitch 32772 0 rows⟩, ⟨32772, .plain 0xB1 []⟩]
    let before : List Placed := ⟨0, .dynamicCall 1⟩ :: others
    let after : List Placed := ⟨0, .call Opcode.invokeStatic 9⟩ :: others
    ∃ code : Bytes, code.length < 2147483648 ∧ decode code = .ok before ∧
      List.Forall₂ Placed.Replaced before after ∧
      assemble after code.length = .error (.outOfRange 5) ∧
      ∃ p ∈ before, p.instruction.IsSwitch ∧ 5 < p.offset := by
  intro rows others before after
  have count : rows.length = 8187 := List.length_replicate
  have encoded : (Instruction.tableSwitch 32772 (0 : UInt32).toInt32 rows).Encoded 11
      (Opcode.tableSwitch :: ([] ++ (be32 32761 ++ (be32 0 ++ (be32 8186 ++
        (rows.map fun _ => 32761).flatMap be32))))) := by
    refine .tableSwitch rfl ?_ (by decide) ⟨by decide, by decide⟩ ?_
    · rw [List.length_map, count]
      decide
    · rw [List.forall₂_map_left_iff, List.forall₂_same]
      intro target held
      rw [List.eq_of_mem_replicate held]
      exact ⟨by decide, by decide⟩
  have size := encoded.length
  rw [Instruction.size, count] at size
  generalize Opcode.tableSwitch :: _ = switch at encoded size
  have tiles : Tiles 11 (switch ++ ([0xB1] ++ [])) [⟨11, .tableSwitch 32772 0 rows⟩,
      ⟨32772, .plain 0xB1 []⟩] := by
    refine .cons encoded ?_
    rw [size]
    exact .cons (.plain (by decide)) (.nil _)
  have all : Tiles 0 ([0xBA, 0, 1, 0, 0] ++ ([0xA7, 0x7F, 0xFF] ++ ([0x11, 0, 0] ++
      (switch ++ ([0xB1] ++ []))))) before := by
    refine .cons (@Instruction.Encoded.dynamicCall 0 1 0) (.cons (.branch (w := 32767) ?_ ?_)
      (.cons (.plain ?_) tiles))
    · decide
    · exact ⟨by decide, by decide⟩
    · decide
  have decoded := decode_eq_ok.mpr all
  have replaced : List.Forall₂ Placed.Replaced before after :=
    .cons (.call 0 1 9) (List.forall₂_same.mpr fun p _ => .kept p)
  have lands := (sends_layOut decoded replaced).1
  have stays := (lands 32772 32772).mpr (by
    simp [after, others, count, landings, Instruction.size, switchPadding, Opcode.isFar,
      Opcode.gotoFar, Opcode.jsrFar])
  have moves := (lands 5 3).mpr (by simp [after, others, landings, Instruction.size])
  have short : ([0xBA, 0, 1, 0, 0] ++ ([0xA7, 0x7F, 0xFF] ++ ([0x11, 0, 0] ++
      (switch ++ ([0xB1] ++ []))))).length < 2147483648 := by
    simp only [List.length_append, size]
    decide
  refine ⟨_, short, decoded, replaced, ?_, ⟨11, .tableSwitch 32772 0 rows⟩, ?_, ?_, by decide⟩
  · refine ((assemble_fails_at_first_miss decoded replaced short).1 _).mpr (.here ?_)
    exact .outOfRange ⟨0xA7, 32772, rfl, rfl⟩ moves stays (.inr (by decide))
  · simp [before, others]
  · exact .inl ⟨_, _, _, rfl⟩

end Downlevel
