/-
# Downlevel.Proofs.Codec — readers and the written forms they invert

`Inverts r write Fits` says that the reader `r` and the printer `write` are inverse to
each other in front of any rest: `r` takes a value off the front of the input exactly
if the value fits the format and its written form stands there. Both halves of a round
trip are read off this one equivalence (`read_write`, `write_read`).

The equivalence is shown here for numbers, bodies of a stated length, runs and tables;
the records of the class file format are put together from these.
-/
import Downlevel.ClassFile.Writer

namespace Downlevel

set_option autoImplicit false

/-! ## Long words -/

theorem be32_append_word32 (a b c d : UInt8) (rest : Bytes) :
    be32 (word32 a b c d) ++ rest = a :: b :: c :: d :: rest := by
  rw [be32_word32]
  rfl

theorem word64_toNat (high low : UInt32) :
    (word64 high low).toNat = high.toNat * 4294967296 + low.toNat := by
  have highBound := high.toNat_lt
  have lowBound := low.toNat_lt
  simp only [word64, UInt64.toNat_ofNat']
  omega

theorem be64_word64 (high low : UInt32) : be64 (word64 high low) = be32 high ++ be32 low := by
  have lowBound := low.toNat_lt
  have highPart : UInt32.ofNat ((word64 high low).toNat / 4294967296) = high := by
    apply UInt32.toNat_inj.mp
    have highBound := high.toNat_lt
    rw [word64_toNat, UInt32.toNat_ofNat']
    omega
  have lowPart : UInt32.ofNat (word64 high low).toNat = low := by
    apply UInt32.toNat_inj.mp
    rw [word64_toNat, UInt32.toNat_ofNat']
    omega
  rw [be64, highPart, lowPart]

theorem word64_be64 (w : UInt64) :
    word64 (UInt32.ofNat (w.toNat / 4294967296)) (UInt32.ofNat w.toNat) = w := by
  have bound := w.toNat_lt
  apply UInt64.toNat_inj.mp
  rw [word64_toNat, UInt32.toNat_ofNat', UInt32.toNat_ofNat']
  omega

namespace Reader

variable {α β : Type}

/-! ## Sequences -/

theorem pure_eq_ok {a b : α} {input rest : Bytes} :
    (pure a : Reader α) input = .ok (b, rest) ↔ a = b ∧ input = rest := by
  rw [pure_apply]
  constructor
  · intro same
    cases same
    exact ⟨rfl, rfl⟩
  · rintro ⟨rfl, rfl⟩
    rfl

theorem bind_eq_ok {r : Reader α} {f : α → Reader β} {input rest : Bytes} {b : β} :
    (r >>= f) input = .ok (b, rest) ↔
      ∃ a middle, r input = .ok (a, middle) ∧ f a middle = .ok (b, rest) := by
  rw [bind_apply]
  cases ran : r input with
  | error fault =>
      constructor
      · intro impossible
        cases impossible
      · rintro ⟨_, _, impossible, _⟩
        cases impossible
  | ok result =>
      obtain ⟨a, middle⟩ := result
      constructor
      · intro more
        exact ⟨a, middle, rfl, more⟩
      · rintro ⟨_, _, same, more⟩
        cases same
        exact more

/-! ## Inverse pairs -/

/-- `r` takes exactly the values that fit, each off the front of its written form. -/
def Inverts (r : Reader α) (write : α → Bytes) (Fits : α → Prop) : Prop :=
  ∀ (input : Bytes) (a : α) (rest : Bytes),
    r input = .ok (a, rest) ↔ Fits a ∧ input = write a ++ rest

/-- The same of inputs of at most `limit` bytes. -/
def InvertsWithin (limit : Nat) (r : Reader α) (write : α → Bytes) (Fits : α → Prop) : Prop :=
  ∀ input : Bytes, input.length ≤ limit → ∀ (a : α) (rest : Bytes),
    r input = .ok (a, rest) ↔ Fits a ∧ input = write a ++ rest

namespace Inverts

variable {r : Reader α} {write : α → Bytes} {Fits : α → Prop}

theorem read_write (inverts : Inverts r write Fits) {a : α} (fits : Fits a) (rest : Bytes) :
    r (write a ++ rest) = .ok (a, rest) :=
  (inverts _ a rest).mpr ⟨fits, rfl⟩

theorem write_read (inverts : Inverts r write Fits) {input rest : Bytes} {a : α}
    (read : r input = .ok (a, rest)) : input = write a ++ rest :=
  ((inverts input a rest).mp read).2

theorem fits_read (inverts : Inverts r write Fits) {input rest : Bytes} {a : α}
    (read : r input = .ok (a, rest)) : Fits a :=
  ((inverts input a rest).mp read).1

end Inverts

/-! ## Numbers -/

theorem u8_inverts : Inverts u8 (fun b => [b]) fun _ => True := by
  intro input b rest
  rw [true_and]
  constructor
  · intro read
    cases input with
    | nil => cases read
    | cons c input =>
        cases read
        rfl
  · rintro rfl
    rfl

theorem u16_inverts : Inverts u16 be16 fun _ => True := by
  intro input w rest
  rw [true_and]
  constructor
  · intro read
    match input, read with
    | a :: b :: _, read =>
        cases read
        rw [be16_word16]
        rfl
  · rintro rfl
    show Except.ok (word16 _ _, rest) = Except.ok (w, rest)
    rw [word16_be16]

theorem u32_inverts : Inverts u32 be32 fun _ => True := by
  intro input w rest
  rw [true_and]
  constructor
  · intro read
    match input, read with
    | a :: b :: c :: d :: _, read =>
        cases read
        rw [be32_append_word32]
  · rintro rfl
    show Except.ok (word32 _ _ _ _, rest) = Except.ok (w, rest)
    rw [word32_be32]

theorem u64_inverts : Inverts u64 be64 fun _ => True := by
  intro input w rest
  rw [true_and]
  constructor
  · intro read
    match input, read with
    | a :: b :: c :: d :: e :: f :: g :: h :: _, read =>
        cases read
        rw [be64_word64, be32_word32, be32_word32]
        rfl
  · rintro rfl
    show Except.ok (word64 (word32 _ _ _ _) (word32 _ _ _ _), rest) = Except.ok (w, rest)
    rw [word32_be32, word32_be32, word64_be64]

@[simp] theorem u8_eq_ok {input rest : Bytes} {b : UInt8} :
    u8 input = .ok (b, rest) ↔ input = b :: rest := by
  simpa using u8_inverts input b rest

@[simp] theorem u16_eq_ok {input rest : Bytes} {w : UInt16} :
    u16 input = .ok (w, rest) ↔ input = be16 w ++ rest := by
  simpa using u16_inverts input w rest

@[simp] theorem u32_eq_ok {input rest : Bytes} {w : UInt32} :
    u32 input = .ok (w, rest) ↔ input = be32 w ++ rest := by
  simpa using u32_inverts input w rest

@[simp] theorem u64_eq_ok {input rest : Bytes} {w : UInt64} :
    u64 input = .ok (w, rest) ↔ input = be64 w ++ rest := by
  simpa using u64_inverts input w rest

/-! ## Bodies, runs and tables -/

@[simp] theorem take_eq_ok {n : Nat} {input rest body : Bytes} :
    Reader.take n input = .ok (body, rest) ↔ body.length = n ∧ input = body ++ rest := by
  unfold Reader.take
  constructor
  · intro read
    simp only at read
    split at read
    · cases read
      exact ⟨‹_›, (List.take_append_drop n input).symm⟩
    · cases read
  · rintro ⟨rfl, rfl⟩
    simp

theorem atEnd_eq_ok {input rest : Bytes} :
    atEnd input = .ok ((), rest) ↔ input = [] ∧ rest = [] := by
  cases input with
  | nil =>
      simp only [atEnd, true_and]
      constructor
      · intro read
        cases read
        rfl
      · rintro rfl
        rfl
  | cons b input =>
      constructor
      · intro read
        cases read
      · rintro ⟨impossible, -⟩
        cases impossible

/-- A run of items is read exactly from their written forms in a row, on inputs on which the
items are. -/
theorem times_eq_ok_within {item : Reader α} {write : α → Bytes} {Fits : α → Prop} {limit : Nat}
    (inverts : InvertsWithin limit item write Fits) {n : Nat} {input rest : Bytes} {as : List α}
    (short : input.length ≤ limit) :
    times item n input = .ok (as, rest) ↔
      as.length = n ∧ (∀ a ∈ as, Fits a) ∧ input = as.flatMap write ++ rest := by
  induction n generalizing input as with
  | zero =>
      rw [times_zero]
      constructor
      · intro read
        cases read
        exact ⟨rfl, by simp, rfl⟩
      · rintro ⟨empty, -, rfl⟩
        rw [List.length_eq_zero_iff.mp empty]
        rfl
  | succ n ih =>
      rw [times_succ]
      constructor
      · intro read
        cases first : item input with
        | error fault =>
            rw [first] at read
            cases read
        | ok result =>
            obtain ⟨a, middle⟩ := result
            obtain ⟨head, rfl⟩ := (inverts input short a middle).mp first
            rw [first] at read
            simp only at read
            rw [List.length_append] at short
            cases others : times item n middle with
            | error fault =>
                rw [others] at read
                cases read
            | ok more =>
                obtain ⟨as', rest'⟩ := more
                rw [others] at read
                cases read
                obtain ⟨count, fits, rfl⟩ := (ih (by omega)).mp others
                refine ⟨by simp [count], List.forall_mem_cons.mpr ⟨head, fits⟩, ?_⟩
                rw [List.flatMap_cons, List.append_assoc]
      · rintro ⟨count, fits, rfl⟩
        cases as with
        | nil => cases count
        | cons a as =>
            obtain ⟨head, others⟩ := List.forall_mem_cons.mp fits
            rw [List.flatMap_cons, List.append_assoc] at short ⊢
            rw [(inverts _ short a _).mpr ⟨head, rfl⟩]
            rw [List.length_append] at short
            have counted : as.length = n := by simpa using count
            simp only [(ih (by omega)).mpr ⟨counted, others, rfl⟩]

/-- A run of items is read exactly from their written forms in a row. -/
theorem times_eq_ok {item : Reader α} {write : α → Bytes} {Fits : α → Prop}
    (inverts : Inverts item write Fits) {n : Nat} {input rest : Bytes} {as : List α} :
    times item n input = .ok (as, rest) ↔
      as.length = n ∧ (∀ a ∈ as, Fits a) ∧ input = as.flatMap write ++ rest :=
  times_eq_ok_within (fun input _ => inverts input) (Nat.le_refl input.length)

/-- A table fits if its count does and all its items do. -/
theorem table_inverts {item : Reader α} {write : α → Bytes} {Fits : α → Prop}
    (inverts : Inverts item write Fits) :
    Inverts (table item) (writeTable write)
      fun as => as.length < 65536 ∧ ∀ a ∈ as, Fits a := by
  intro input as rest
  unfold table
  rw [bind_eq_ok]
  constructor
  · rintro ⟨count, middle, counted, items⟩
    obtain ⟨length, fits, rfl⟩ := (times_eq_ok inverts).mp items
    have bound := count.toNat_lt
    refine ⟨⟨by omega, fits⟩, ?_⟩
    rw [u16_eq_ok.mp counted, writeTable, length, UInt16.ofNat_toNat, List.append_assoc]
  · rintro ⟨⟨bound, fits⟩, rfl⟩
    refine ⟨UInt16.ofNat as.length, as.flatMap write ++ rest, ?_, ?_⟩
    · rw [u16_eq_ok, writeTable, List.append_assoc]
    · apply (times_eq_ok inverts).mpr
      refine ⟨?_, fits, rfl⟩
      rw [UInt16.toNat_ofNat']
      omega

/-- The whole input is one written form. -/
theorem whole_eq_ok {r : Reader α} {input rest : Bytes} {a : α} :
    whole r input = .ok (a, rest) ↔ r input = .ok (a, []) ∧ rest = [] := by
  unfold whole
  simp only [bind_eq_ok, pure_eq_ok]
  constructor
  · rintro ⟨a', middle, read, ⟨⟩, middle', ended, rfl, rfl⟩
    obtain ⟨rfl, rfl⟩ := atEnd_eq_ok.mp ended
    exact ⟨read, rfl⟩
  · rintro ⟨read, rfl⟩
    exact ⟨a, [], read, (), [], rfl, rfl, rfl⟩

end Reader

end Downlevel
