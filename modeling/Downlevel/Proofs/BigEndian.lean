/-
# Downlevel.Proofs.BigEndian — the numbers that stand in a byte string

`Bytes.slice?` cuts a run of bytes out of a byte string. `Bytes.unsigned?` and `Bytes.signed?`
give the number that such a run stands for, its most significant byte first; they are computed
by arithmetic on the bytes and have no value where the byte string ends too early.

Every run of two or four bytes is a written word, so the number found at a place is that of the
word that stands there (`unsigned?_16_eq_some`, `signed?_16_eq_some`, `signed?_32_eq_some`).
-/
import Mathlib.Algebra.Group.Int.Defs
import Mathlib.Algebra.Group.Nat.Defs
import Downlevel.Bytes

namespace Downlevel

set_option autoImplicit false

namespace Bytes

/-! ## Runs of bytes -/

/-- The bytes stand in `code` from `start` on. -/
def Holds (code : Bytes) (start : Nat) (bytes : Bytes) : Prop :=
  bytes <+: code.drop start

/-- The `width` bytes from `start` on, if there are so many. -/
def slice? (code : Bytes) (start width : Nat) : Option Bytes :=
  if start + width ≤ code.length then some ((code.drop start).take width) else none

section

variable {code : Bytes} {start : Nat}

theorem holds_append {front back : Bytes} :
    Holds code start (front ++ back) ↔
      Holds code start front ∧ Holds code (start + front.length) back := by
  unfold Holds
  rw [← List.drop_drop]
  constructor
  · rintro ⟨rest, whole⟩
    rw [← whole, List.append_assoc, List.drop_left]
    exact ⟨List.prefix_append _ _, List.prefix_append _ _⟩
  · rintro ⟨⟨middle, first⟩, rest, second⟩
    rw [← first, List.drop_left] at second
    exact ⟨rest, by rw [List.append_assoc, second, first]⟩

theorem holds_singleton {b : UInt8} : Holds code start [b] ↔ code[start]? = some b := by
  unfold Holds
  rw [← List.head?_drop]
  cases code.drop start with
  | nil => simp
  | cons first rest => simp [List.cons_prefix_cons, eq_comm]

theorem holds_cons {b : UInt8} {rest : Bytes} :
    Holds code start (b :: rest) ↔ code[start]? = some b ∧ Holds code (start + 1) rest := by
  rw [← holds_singleton]
  exact @holds_append code start [b] rest

theorem Holds.end_le {bytes : Bytes} (holds : Holds code start bytes) (nonempty : bytes ≠ []) :
    start + bytes.length ≤ code.length := by
  have room := holds.length_le
  have positive := List.length_pos_iff.mpr nonempty
  rw [List.length_drop] at room
  omega

theorem exists_holds {width : Nat} (inside : start + width ≤ code.length) :
    ∃ bytes : Bytes, bytes.length = width ∧ Holds code start bytes := by
  refine ⟨(code.drop start).take width, ?_, List.take_prefix _ _⟩
  rw [List.length_take, List.length_drop]
  omega

theorem slice?_eq_some {width : Nat} (positive : 0 < width) {bytes : Bytes} :
    slice? code start width = some bytes ↔ bytes.length = width ∧ Holds code start bytes := by
  unfold slice?
  constructor
  · intro found
    split at found
    · obtain rfl := Option.some.inj found
      refine ⟨?_, List.take_prefix _ _⟩
      rw [List.length_take, List.length_drop]
      omega
    · cases found
  · rintro ⟨rfl, holds⟩
    rw [if_pos (holds.end_le (List.length_pos_iff.mp positive)),
      ← List.prefix_iff_eq_take.mp holds]

/-- Items of one size stand in a row exactly if each of them stands at its place. -/
theorem holds_flatMap {α : Type} {write : α → Bytes} {size : Nat}
    (sized : ∀ a, (write a).length = size) {as : List α} :
    Holds code start (as.flatMap write) ↔
      ∀ k a, as[k]? = some a → Holds code (start + size * k) (write a) := by
  induction as generalizing start with
  | nil =>
      refine ⟨fun _ k a found => ?_, fun _ => List.nil_prefix⟩
      cases found
  | cons first as ih =>
      rw [List.flatMap_cons, holds_append, ih, sized]
      have place (k : Nat) : start + size + size * k = start + size * (k + 1) := by
        rw [Nat.mul_add, Nat.mul_one]
        omega
      constructor
      · rintro ⟨here, behind⟩ k a found
        cases k with
        | zero =>
            obtain rfl := Option.some.inj found
            exact here
        | succ k =>
            rw [← place]
            exact behind k a found
      · intro each
        refine ⟨each 0 first rfl, fun k a found => ?_⟩
        rw [place]
        exact each (k + 1) a found

end

/-! ## Their values -/

/-- The number whose bytes these are, the most significant first. -/
def value (bytes : Bytes) : Nat :=
  bytes.foldl (fun n b => 256 * n + b.toNat) 0

/-- The same in two's complement. -/
def signedValue (bytes : Bytes) : Int :=
  if 2 * value bytes < 256 ^ bytes.length then value bytes
  else (value bytes : Int) - 256 ^ bytes.length

/-- The number in the `width` bytes from `start` on. -/
def unsigned? (code : Bytes) (start width : Nat) : Option Nat :=
  (slice? code start width).map value

/-- The number in two's complement in the `width` bytes from `start` on. -/
def signed? (code : Bytes) (start width : Nat) : Option Int :=
  (slice? code start width).map signedValue

theorem value_be16 (w : UInt16) : value (be16 w) = w.toNat := by
  have bound := w.toNat_lt
  simp only [value, be16, List.foldl_cons, List.foldl_nil, UInt8.toNat_ofNat']
  omega

theorem value_be32 (w : UInt32) : value (be32 w) = w.toNat := by
  have bound := w.toNat_lt
  simp only [value, be32, List.foldl_cons, List.foldl_nil, UInt8.toNat_ofNat']
  omega

theorem signedValue_be16 (w : UInt16) : signedValue (be16 w) = w.toInt16.toInt := by
  have bits : w.toInt16.toInt = w.toBitVec.toInt := rfl
  rw [signedValue, value_be16, length_be16, bits, BitVec.toInt_eq_toNat_cond]
  simp

theorem signedValue_be32 (w : UInt32) : signedValue (be32 w) = w.toInt32.toInt := by
  have bits : w.toInt32.toInt = w.toBitVec.toInt := rfl
  rw [signedValue, value_be32, length_be32, bits, BitVec.toInt_eq_toNat_cond]
  simp

/-- A word that is not negative is the same number with and without a sign. -/
theorem toInt_eq_toNat_of_nonneg {w : UInt32} (nonneg : 0 ≤ w.toInt32.toInt) :
    w.toInt32.toInt = w.toNat := by
  have bound := w.toNat_lt
  have bits : w.toInt32.toInt = w.toBitVec.toInt := rfl
  rw [bits, BitVec.toInt_eq_toNat_cond, UInt32.toNat_toBitVec] at nonneg ⊢
  split at nonneg
  · rw [if_pos ‹_›]
  · omega

theorem length_eq_two_iff {bytes : Bytes} : bytes.length = 2 ↔ ∃ w, bytes = be16 w := by
  constructor
  · intro two
    rcases bytes with _ | ⟨a, _ | ⟨b, _ | ⟨c, rest⟩⟩⟩ <;> simp at two
    exact ⟨word16 a b, (be16_word16 a b).symm⟩
  · rintro ⟨w, rfl⟩
    exact length_be16 w

theorem length_eq_four_iff {bytes : Bytes} : bytes.length = 4 ↔ ∃ w, bytes = be32 w := by
  constructor
  · intro four
    rcases bytes with _ | ⟨a, _ | ⟨b, _ | ⟨c, _ | ⟨d, _ | ⟨e, rest⟩⟩⟩⟩⟩ <;> simp at four
    exact ⟨word32 a b c d, (be32_word32 a b c d).symm⟩
  · rintro ⟨w, rfl⟩
    exact length_be32 w

section

variable {code : Bytes} {start : Nat}

/-- What a run of bytes stands for is what a written item stands for, if every run of that width
is one. -/
theorem map_slice?_eq_some {α β : Type} {width : Nat} {write : α → Bytes} {f : Bytes → β} {x : β}
    (positive : 0 < width)
    (written : ∀ {bytes : Bytes}, bytes.length = width ↔ ∃ a, bytes = write a) :
    (slice? code start width).map f = some x ↔
      ∃ a, Holds code start (write a) ∧ f (write a) = x := by
  simp only [Option.map_eq_some_iff, slice?_eq_some positive]
  constructor
  · rintro ⟨bytes, ⟨length, holds⟩, rfl⟩
    obtain ⟨a, rfl⟩ := written.mp length
    exact ⟨a, holds, rfl⟩
  · rintro ⟨a, holds, rfl⟩
    exact ⟨write a, ⟨written.mpr ⟨a, rfl⟩, holds⟩, rfl⟩

theorem end_le_of_unsigned? {width n : Nat} (found : unsigned? code start width = some n) :
    start + width ≤ code.length := by
  unfold unsigned? slice? at found
  split at found
  · assumption
  · cases found

theorem unsigned?_8_eq_some {n : Nat} :
    unsigned? code start 1 = some n ↔ ∃ b, Holds code start [b] ∧ b.toNat = n := by
  rw [unsigned?, map_slice?_eq_some Nat.one_pos List.length_eq_one_iff]
  simp [value]

theorem unsigned?_16_eq_some {n : Nat} :
    unsigned? code start 2 = some n ↔ ∃ w, Holds code start (be16 w) ∧ w.toNat = n := by
  rw [unsigned?, map_slice?_eq_some Nat.two_pos length_eq_two_iff]
  simp only [value_be16]

theorem exists_unsigned?_16 (inside : start + 2 ≤ code.length) :
    ∃ w : UInt16, unsigned? code start 2 = some w.toNat := by
  obtain ⟨bytes, two, holds⟩ := exists_holds inside
  obtain ⟨w, rfl⟩ := length_eq_two_iff.mp two
  exact ⟨w, unsigned?_16_eq_some.mpr ⟨w, holds, rfl⟩⟩

theorem signed?_16_eq_some {d : Int} :
    signed? code start 2 = some d ↔ ∃ w, Holds code start (be16 w) ∧ w.toInt16.toInt = d := by
  rw [signed?, map_slice?_eq_some Nat.two_pos length_eq_two_iff]
  simp only [signedValue_be16]

theorem signed?_32_eq_some {d : Int} :
    signed? code start 4 = some d ↔ ∃ w, Holds code start (be32 w) ∧ w.toInt32.toInt = d := by
  rw [signed?, map_slice?_eq_some (by decide) length_eq_four_iff]
  simp only [signedValue_be32]

end

end Bytes

end Downlevel
