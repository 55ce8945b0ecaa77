/-
# Downlevel.Proofs.Code.Drift — how far stops move

A stop drifts towards the start by the bytes that were saved in front of it. A call that is
replaced saves two bytes, and an instruction that is kept saves none, unless it is a switch:
its operands are aligned anew. The drift behind a switch is a multiple of four, so it can fall
short of the drift in front of the switch, by two bytes and no more, and however many switches
follow, it does not fall any further (`drift_step`, `Tiles.drift`).

So two stops never move apart by more than two bytes, and not at all unless a switch starts
between them (`stretch_layOut`). Every drift is even (`even_drift_layOut`).
-/
import Downlevel.Proofs.Code.Reassembly

namespace Downlevel

set_option autoImplicit false

/-- The instruction has padding, which depends on where it stands. -/
def Instruction.IsSwitch (instruction : Instruction) : Prop :=
  (∃ fallback low targets, instruction = .tableSwitch fallback low targets) ∨
    ∃ fallback pairs, instruction = .lookupSwitch fallback pairs

theorem Instruction.size_eq_of_not_switch {instruction : Instruction}
    (other : ¬ instruction.IsSwitch) (offset position : Nat) :
    instruction.size offset = instruction.size position := by
  cases instruction with
  | tableSwitch fallback low targets => exact absurd (.inl ⟨fallback, low, targets, rfl⟩) other
  | lookupSwitch fallback pairs => exact absurd (.inr ⟨fallback, pairs, rfl⟩) other
  | _ => rfl

/-- Behind a switch the drift is the multiple of four next to what it was in front. -/
theorem Instruction.switch_drift {instruction : Instruction} (switch : instruction.IsSwitch)
    {offset position : Nat} (earlier : position ≤ offset) (even : (offset - position) % 2 = 0) :
    (offset + instruction.size offset - (position + instruction.size position)) % 4 = 0 ∧
      offset - position ≤
        offset + instruction.size offset - (position + instruction.size position) + 2 := by
  rcases switch with ⟨fallback, low, targets, rfl⟩ | ⟨fallback, pairs, rfl⟩
  · simp only [Instruction.size, switchPadding]
    omega
  · simp only [Instruction.size, switchPadding]
    omega

/-- What one instruction does to the drift. -/
theorem drift_step {offset position : Nat} {instruction : Instruction} {q : Placed}
    (replaced : Placed.Replaced ⟨offset, instruction⟩ q) (earlier : position ≤ offset)
    (even : (offset - position) % 2 = 0) {drift : Nat}
    (drifts : drift = offset + instruction.size offset -
      (position + q.instruction.size position)) :
    position + q.instruction.size position ≤ offset + instruction.size offset ∧
      drift % 2 = 0 ∧ (offset - position) / 4 * 4 ≤ drift ∧
      (¬ instruction.IsSwitch → offset - position ≤ drift) := by
  cases replaced with
  | call offset site index =>
      simp only [Instruction.size] at drifts ⊢
      omega
  | kept =>
      have ends := instruction.end_mono earlier
      simp only at drifts ⊢
      by_cases switch : instruction.IsSwitch
      · obtain ⟨aligned, close⟩ := Instruction.switch_drift switch earlier even
        exact ⟨ends, by omega, by omega, fun other => absurd switch other⟩
      · have same := Instruction.size_eq_of_not_switch switch offset position
        omega

/-- The stops behind an instruction lie behind its start. -/
theorem Tiles.lt_of_behind {offset : Nat} {instruction : Instruction} {piece rest : Bytes}
    {before after : List Placed} (tiles : Tiles (offset + piece.length) rest before)
    (encoded : instruction.Encoded offset piece)
    (replaced : List.Forall₂ Placed.Replaced before after) {o : Nat}
    (stop : o ∈ stops after (offset + piece.length + rest.length)) : offset < o := by
  rw [stops_of_replaced _ replaced] at stop
  have later := tiles.stops_ordered.1 o stop
  have positive := encoded.length_pos
  omega

/-- What a row of instructions does to the drift, at each of its stops. -/
theorem Tiles.drift {offset position : Nat} {bytes : Bytes} {before after : List Placed}
    (tiles : Tiles offset bytes before) (replaced : List.Forall₂ Placed.Replaced before after)
    (earlier : position ≤ offset) (even : (offset - position) % 2 = 0) :
    ∀ o m, (o, m) ∈ (stops after (offset + bytes.length)).zip (landings after position) →
      m ≤ o ∧ (o - m) % 2 = 0 ∧ (offset - position) / 4 * 4 ≤ o - m ∧
        ((∀ p ∈ before, p.offset < o → ¬ p.instruction.IsSwitch) → offset - position ≤ o - m) := by
  induction tiles generalizing after position with
  | nil offset =>
      cases replaced
      intro o m member
      obtain ⟨rfl, rfl⟩ := Prod.mk.inj (List.mem_singleton.mp member)
      exact ⟨earlier, even, Nat.div_mul_le_self _ 4, fun _ => Nat.le_refl _⟩
  | @cons offset instruction piece rest code encoded tiles ih =>
      cases replaced with
      | @cons _ q _ after first others =>
          intro o m member
          rw [List.length_append, ← Nat.add_assoc, stops_cons, landings, List.zip_cons_cons,
            first.offset_eq] at member
          rcases List.mem_cons.mp member with same | member
          · obtain ⟨rfl, rfl⟩ := Prod.mk.inj same
            exact ⟨earlier, even, Nat.div_mul_le_self _ 4, fun _ => Nat.le_refl _⟩
          · obtain ⟨ends, evenNext, short, kept⟩ := drift_step first earlier even rfl
            rw [← encoded.length] at ends evenNext short kept
            obtain ⟨before, evenLast, shortNext, keptNext⟩ := ih others ends evenNext o m member
            refine ⟨before, evenLast, by omega, fun noSwitch => ?_⟩
            have behind := tiles.lt_of_behind encoded others (List.of_mem_zip member).1
            have here := kept (noSwitch _ List.mem_cons_self behind)
            have there := keptNext fun p held => noSwitch p (List.mem_cons_of_mem _ held)
            exact Nat.le_trans here there

/-- What the instructions between two stops do to the drift. -/
theorem Tiles.drift_between {offset position : Nat} {bytes : Bytes} {before after : List Placed}
    (tiles : Tiles offset bytes before) (replaced : List.Forall₂ Placed.Replaced before after)
    (earlier : position ≤ offset) (even : (offset - position) % 2 = 0) {o m o' m' : Nat}
    (here : (o, m) ∈ (stops after (offset + bytes.length)).zip (landings after position))
    (there : (o', m') ∈ (stops after (offset + bytes.length)).zip (landings after position))
    (le : o ≤ o') :
    (o - m) / 4 * 4 ≤ o' - m' ∧
      ((∀ p ∈ before, o ≤ p.offset → p.offset < o' → ¬ p.instruction.IsSwitch) →
        o - m ≤ o' - m') := by
  induction tiles generalizing after position with
  | nil offset =>
      cases replaced
      obtain ⟨rfl, rfl⟩ := Prod.mk.inj (List.mem_singleton.mp here)
      obtain ⟨rfl, rfl⟩ := Prod.mk.inj (List.mem_singleton.mp there)
      exact ⟨Nat.div_mul_le_self _ 4, fun _ => Nat.le_refl _⟩
  | @cons offset instruction piece rest code encoded tiles ih =>
      have whole := Tiles.drift (.cons encoded tiles) replaced earlier even o' m' there
      have starts := (Tiles.cons encoded tiles).stops_ordered.1
      cases replaced with
      | @cons _ q _ after first others =>
          rw [List.length_append, ← Nat.add_assoc, stops_cons, landings, List.zip_cons_cons,
            first.offset_eq] at here there
          rcases List.mem_cons.mp here with same | here
          · obtain ⟨rfl, rfl⟩ := Prod.mk.inj same
            obtain ⟨-, -, short, kept⟩ := whole
            refine ⟨short, fun noSwitch => kept fun p held before => ?_⟩
            exact noSwitch p held (starts p.offset (List.mem_append_left _
              (List.mem_map_of_mem held))) before
          · have behind := tiles.lt_of_behind encoded others (List.of_mem_zip here).1
            obtain ⟨ends, evenNext, -, -⟩ := drift_step first earlier even rfl
            rw [← encoded.length] at ends evenNext
            rcases List.mem_cons.mp there with same | there
            · obtain ⟨rfl, rfl⟩ := Prod.mk.inj same
              omega
            · obtain ⟨short, kept⟩ := ih others ends evenNext here there
              exact ⟨short, fun noSwitch => kept fun p held =>
                noSwitch p (List.mem_cons_of_mem _ held)⟩

/-! ## The layout -/

section Layout

variable {code : Bytes} {before after : List Placed} (decoded : decode code = .ok before)
  (replaced : List.Forall₂ Placed.Replaced before after)
include decoded replaced

theorem even_drift_layOut {o m : Nat} (sends : (layOut after code.length).Sends o m) :
    (o - m) % 2 = 0 := by
  have member := ((sends_layOut decoded replaced).1 o m).mp sends
  rw [← Nat.zero_add code.length] at member
  exact ((decode_eq_ok.mp decoded).drift replaced (Nat.le_refl 0) rfl o m member).2.1

/-- Two stops move apart by two bytes at most, and not at all if no switch starts between them. -/
theorem stretch_layOut {o m o' m' : Nat} (sends : (layOut after code.length).Sends o m)
    (sends' : (layOut after code.length).Sends o' m') (le : o ≤ o') :
    m' - m ≤ o' - o + 2 ∧
      ((∀ p ∈ before, o ≤ p.offset → p.offset < o' → ¬ p.instruction.IsSwitch) →
        m' - m ≤ o' - o) := by
  obtain ⟨lands, shrinks⟩ := sends_layOut decoded replaced
  have even := even_drift_layOut decoded replaced sends
  have earlier := shrinks o m sends
  have earlier' := shrinks o' m' sends'
  have here := (lands o m).mp sends
  have there := (lands o' m').mp sends'
  rw [← Nat.zero_add code.length] at here there
  obtain ⟨short, kept⟩ :=
    (decode_eq_ok.mp decoded).drift_between replaced (Nat.le_refl 0) rfl here there le
  refine ⟨by omega, fun noSwitch => ?_⟩
  have whole := kept noSwitch
  omega

end Layout

end Downlevel
