/-
# Downlevel.Proofs.Text.Forms — every text has one coded form

The format of coded text, spelled out byte by byte and without reference to the functions that
code it: a character has five forms, each with the bytes that may stand in it (`Spells`), and a
text is spelled by the forms of its characters in a row (`Spelled`). Nothing but these forms is
decoded (`spelled_of_decodeOnto`), and each of them is the one that is written for its character
(`encodeChar_of_spells`). So a byte string decodes to a text exactly if it is what the text is
encoded to (`decode?_eq_some`).

A pool is searched for a text by comparing bytes. As there is one form for each text only, the
search finds what a lookup would read as that text, and nothing else
(`Pool.exists_find?_text_iff`).
-/
import Downlevel.Proofs.Pool.Intern
import Downlevel.Proofs.Text.Modified

namespace Downlevel

set_option autoImplicit false

namespace Modified

/-! ## The forms -/

/-- A byte that goes on with a character: `80` to `bf`. -/
def IsTail (b : UInt8) : Prop :=
  0x80 ≤ b.toNat ∧ b.toNat ≤ 0xBF

/-- The bytes spell the character. -/
inductive Spells : Char → Bytes → Prop where
  /-- `01` to `7f`. -/
  | one {a : UInt8} (low : 0x01 ≤ a.toNat) (high : a.toNat ≤ 0x7F) :
      Spells (Char.ofNat a.toNat) [a]
  /-- `c0 80`. -/
  | nul : Spells (Char.ofNat 0) [0xC0, 0x80]
  /-- `c2` to `df` and a tail. -/
  | two {a b : UInt8} (low : 0xC2 ≤ a.toNat) (high : a.toNat ≤ 0xDF) (tail : IsTail b) :
      Spells (Char.ofNat ((a.toNat - 0xC0) * 64 + (b.toNat - 0x80))) [a, b]
  /-- `e0` to `ef` and two tails. Behind `e0` the first is at least `a0`, behind `ed` at most `9f`. -/
  | three {a b c : UInt8} (low : 0xE0 ≤ a.toNat) (high : a.toNat ≤ 0xEF) (tail : IsTail b)
      (tail' : IsTail c) (long : a.toNat = 0xE0 → 0xA0 ≤ b.toNat)
      (whole : a.toNat = 0xED → b.toNat ≤ 0x9F) :
      Spells (Char.ofNat ((a.toNat - 0xE0) * 4096 + (b.toNat - 0x80) * 64 + (c.toNat - 0x80)))
        [a, b, c]
  /-- `ed`, `a0` to `af`, a tail, `ed`, `b0` to `bf`, a tail: ten bits of the character from each half. -/
  | pair {b c e f : UInt8} (low : 0xA0 ≤ b.toNat) (high : b.toNat ≤ 0xAF) (tail : IsTail c)
      (low' : 0xB0 ≤ e.toNat) (high' : e.toNat ≤ 0xBF) (tail' : IsTail f) :
      Spells (Char.ofNat (0x10000 + ((b.toNat - 0xA0) * 64 + (c.toNat - 0x80)) * 1024 +
        ((e.toNat - 0xB0) * 64 + (f.toNat - 0x80)))) [0xED, b, c, 0xED, e, f]

/-- The bytes spell the characters one after the other. -/
inductive Spelled : List Char → Bytes → Prop where
  | nil : Spelled [] []
  | cons {c : Char} {piece : Bytes} {cs : List Char} {rest : Bytes} (first : Spells c piece)
      (others : Spelled cs rest) : Spelled (c :: cs) (piece ++ rest)

/-! ## What is decoded is spelled -/

theorem continuation?_eq_some {b : UInt8} {n : Nat} :
    continuation? b = some n ↔ IsTail b ∧ n = b.toNat - 0x80 := by
  unfold continuation? IsTail
  split
  · rename_i inside
    simp only [Option.some.injEq]
    omega
  · rename_i outside
    simp only [reduceCtorEq, false_iff]
    omega

theorem twoByte?_eq_some {a b : UInt8} {n : Nat} (value : twoByte? a b = some n) :
    0xC0 ≤ a.toNat ∧ a.toNat < 0xE0 ∧ IsTail b ∧ n = (a.toNat - 0xC0) * 64 + (b.toNat - 0x80) ∧
      (n = 0 ∨ 0x80 ≤ n) := by
  unfold twoByte? at value
  split at value
  · rename_i inside
    cases tailed : continuation? b with
    | none => simp [tailed] at value
    | some low =>
        obtain ⟨tail, lowBits⟩ := continuation?_eq_some.mp tailed
        simp only [tailed, Option.ite_none_right_eq_some, Option.some.injEq] at value
        obtain ⟨shape, sum⟩ := value
        rw [sum] at shape
        exact ⟨inside.1, inside.2, tail, by rw [← sum, lowBits], shape⟩
  · simp at value

theorem threeByte?_eq_some {a b c : UInt8} {n : Nat} (value : threeByte? a b c = some n) :
    0xE0 ≤ a.toNat ∧ a.toNat < 0xF0 ∧ IsTail b ∧ IsTail c ∧
      n = (a.toNat - 0xE0) * 4096 + (b.toNat - 0x80) * 64 + (c.toNat - 0x80) ∧ 0x800 ≤ n := by
  unfold threeByte? at value
  split at value
  · rename_i inside
    cases tailed : continuation? b with
    | none => simp [tailed] at value
    | some middle =>
        cases tailed' : continuation? c with
        | none => simp [tailed, tailed'] at value
        | some low =>
            obtain ⟨tail, middleBits⟩ := continuation?_eq_some.mp tailed
            obtain ⟨tail', lowBits⟩ := continuation?_eq_some.mp tailed'
            simp only [tailed, tailed', Option.ite_none_right_eq_some, Option.some.injEq] at value
            obtain ⟨large, sum⟩ := value
            rw [sum] at large
            exact ⟨inside.1, inside.2, tail, tail', by rw [← sum, middleBits, lowBits], large⟩
  · simp at value

theorem spells_of_twoByte? {a b : UInt8} {n : Nat} (value : twoByte? a b = some n) :
    Spells (Char.ofNat n) [a, b] := by
  obtain ⟨above, below, tail, sum, shape⟩ := twoByte?_eq_some value
  have low := tail.1
  have high := tail.2
  rcases shape with zero | large
  · have first : a = 0xC0 := UInt8.toNat_inj.mp (by show a.toNat = 0xC0; omega)
    have second : b = 0x80 := UInt8.toNat_inj.mp (by show b.toNat = 0x80; omega)
    rw [zero, first, second]
    exact .nul
  · rw [sum]
    exact .two (by omega) (by omega) tail

theorem spells_of_threeByte? {a b c : UInt8} {n : Nat} (value : threeByte? a b c = some n)
    (plain : n < 0xD800 ∨ 0xE000 ≤ n) : Spells (Char.ofNat n) [a, b, c] := by
  obtain ⟨above, below, tail, tail', sum, large⟩ := threeByte?_eq_some value
  have low := tail.1
  have high := tail.2
  have low' := tail'.1
  have high' := tail'.2
  rw [sum]
  exact .three above (by omega) tail tail' (by omega) (by omega)

theorem spells_of_pair {a b c d e f : UInt8} {high low : Nat}
    (value : threeByte? a b c = some high) (isHigh : 0xD800 ≤ high ∧ high < 0xDC00)
    (value' : threeByte? d e f = some low) (isLow : 0xDC00 ≤ low ∧ low < 0xE000) :
    Spells (pair high low) [a, b, c, d, e, f] := by
  obtain ⟨above, below, ⟨low₁, high₁⟩, tail, sum, -⟩ := threeByte?_eq_some value
  obtain ⟨above', below', ⟨low₂, high₂⟩, tail', sum', -⟩ := threeByte?_eq_some value'
  have low₃ := tail.1
  have high₃ := tail.2
  have low₄ := tail'.1
  have high₄ := tail'.2
  have first : a = 0xED := UInt8.toNat_inj.mp (by show a.toNat = 0xED; omega)
  have second : d = 0xED := UInt8.toNat_inj.mp (by show d.toNat = 0xED; omega)
  have joined : 0x10000 + (high - 0xD800) * 0x400 + (low - 0xDC00) =
      0x10000 + ((b.toNat - 0xA0) * 64 + (c.toNat - 0x80)) * 1024 +
        ((e.toNat - 0xB0) * 64 + (f.toNat - 0x80)) := by
    omega
  rw [pair, joined, first, second]
  exact .pair (by omega) (by omega) tail (by omega) (by omega) tail'

theorem spelled_of_decodeOnto {bytes : Bytes} {read cs : List Char}
    (decoded : decodeOnto read bytes = some cs) :
    ∃ more, cs = read.reverse ++ more ∧ Spelled more bytes := by
  fun_induction decodeOnto read bytes with
  | case1 read =>
      cases decoded
      exact ⟨[], by simp, .nil⟩
  | case3 read a rest positive small ih =>
      obtain ⟨more, rfl, spelled⟩ := ih decoded
      refine ⟨Char.ofNat a.toNat :: more, by simp, ?_⟩
      exact .cons (.one (by omega) (by omega)) spelled
  | case4 read a positive large small b rest n value ih =>
      obtain ⟨more, rfl, spelled⟩ := ih decoded
      exact ⟨_, by simp, .cons (spells_of_twoByte? value) spelled⟩
  | case7 read a _ _ large b c rest n value plain ih =>
      obtain ⟨more, rfl, spelled⟩ := ih decoded
      exact ⟨_, by simp, .cons (spells_of_threeByte? value plain) spelled⟩
  | case9 read a _ _ large b c n value surrogate high d e f rest m value' low ih =>
      obtain ⟨more, rfl, spelled⟩ := ih decoded
      exact ⟨_, by simp, .cons (spells_of_pair value (by omega) value' low) spelled⟩
  | _ => cases decoded

/-! ## What is spelled is what is written -/

theorem toNat_ofNat_of_valid {n : Nat} (valid : n < 0xD800 ∨ 0xDFFF < n ∧ n < 0x110000) :
    (Char.ofNat n).toNat = n := by
  rw [Char.ofNat, dif_pos valid]
  rfl

theorem twoBytes_eq {a b : UInt8} {n : Nat} (first : a.toNat = 0xC0 + n / 64)
    (second : b.toNat = 0x80 + n % 64) : twoBytes n = [a, b] := by
  rw [twoBytes, ← first, ← second, UInt8.ofNat_toNat, UInt8.ofNat_toNat]

theorem threeBytes_eq {a b c : UInt8} {n : Nat} (first : a.toNat = 0xE0 + n / 4096)
    (second : b.toNat = 0x80 + n / 64 % 64) (third : c.toNat = 0x80 + n % 64) :
    threeBytes n = [a, b, c] := by
  rw [threeBytes, ← first, ← second, ← third, UInt8.ofNat_toNat, UInt8.ofNat_toNat,
    UInt8.ofNat_toNat]

theorem encodeChar_of_spells {c : Char} {piece : Bytes} (spells : Spells c piece) :
    encodeChar c = piece := by
  unfold encodeChar
  simp only
  cases spells with
  | @one a low high =>
      rw [toNat_ofNat_of_valid (by omega), if_neg (by omega), if_pos (by omega), UInt8.ofNat_toNat]
  | nul => rfl
  | @two a b low high tail =>
      obtain ⟨low', high'⟩ := tail
      rw [toNat_ofNat_of_valid (by omega), if_neg (by omega), if_neg (by omega), if_pos (by omega)]
      exact twoBytes_eq (by omega) (by omega)
  | @three a b c low high tail tail' long whole =>
      obtain ⟨low', high'⟩ := tail
      obtain ⟨low'', high''⟩ := tail'
      rw [toNat_ofNat_of_valid (by omega), if_neg (by omega), if_neg (by omega), if_neg (by omega),
        if_pos (by omega)]
      exact threeBytes_eq (by omega) (by omega) (by omega)
  | @pair b c e f low high tail low' high' tail' =>
      obtain ⟨low₁, high₁⟩ := tail
      obtain ⟨low₂, high₂⟩ := tail'
      rw [toNat_ofNat_of_valid (by omega), if_neg (by omega), if_neg (by omega), if_neg (by omega),
        if_neg (by omega)]
      have lead : (0xED : UInt8).toNat = 0xED := rfl
      rw [threeBytes_eq (a := 0xED) (b := b) (c := c) (by omega) (by omega) (by omega),
        threeBytes_eq (a := 0xED) (b := e) (c := f) (by omega) (by omega) (by omega)]
      rfl

theorem eq_encodeChars_of_spelled {cs : List Char} {bytes : Bytes} (spelled : Spelled cs bytes) :
    bytes = encodeChars cs := by
  induction spelled with
  | nil => rfl
  | cons first _ ih =>
      rw [encodeChars, List.flatMap_cons, encodeChar_of_spells first, ih]
      rfl

/-! ## Both directions -/

theorem spelled_iff {bytes : Bytes} {text : String} :
    Spelled text.toList bytes ↔ decode? bytes = some text := by
  constructor
  · intro spelled
    have written : bytes = encode text := eq_encodeChars_of_spelled spelled
    rw [written, decode?_encode]
  · intro decoded
    obtain ⟨cs, read, rfl⟩ := Option.map_eq_some_iff.mp decoded
    obtain ⟨more, same, spelled⟩ := spelled_of_decodeOnto read
    rw [String.toList_ofList, same]
    exact spelled

theorem decode?_eq_some {bytes : Bytes} {text : String} :
    decode? bytes = some text ↔ bytes = encode text := by
  constructor
  · intro decoded
    exact eq_encodeChars_of_spelled (spelled_iff.mpr decoded)
  · intro written
    rw [written, decode?_encode]

end Modified

/-! ## Searching for a text -/

namespace Pool

open Modified

/-- The slot holds a constant that reads as the text. -/
def Reads (text : String) (slot : Option Constant) : Prop :=
  ∃ bytes, slot = some (.utf8 bytes) ∧ decode? bytes = some text

theorem reads_iff {text : String} {slot : Option Constant} :
    Reads text slot ↔ slot = some (.utf8 (encode text)) := by
  constructor
  · intro reads
    obtain ⟨bytes, held, decoded⟩ := reads
    rw [held, decode?_eq_some.mp decoded]
  · intro held
    exact ⟨encode text, held, decode?_encode text⟩

theorem exists_find?_iff {pool : Pool} {constant : Constant} :
    (∃ index, pool.find? constant = some index) ↔ some constant ∈ pool.slots := by
  unfold find?
  rw [← Option.isSome_iff_exists, Option.isSome_map, Array.findIdx?_isSome]
  simp [Array.mem_iff_getElem]

theorem exists_find?_text_iff {pool : Pool} {text : String} :
    (∃ index, pool.find? (.utf8 (encode text)) = some index) ↔
      ∃ slot ∈ pool.slots, Reads text slot := by
  rw [exists_find?_iff]
  simp [reads_iff]

/-- An edit that adds a text leaves the pool as it is exactly if a slot reads as the text. -/
theorem internText_unchanged_iff {pool : Pool} {text : String} :
    (∃ index, (internText text).run pool = (.ok index, pool)) ↔
      (encode text).length ≤ 65535 ∧ ∃ slot ∈ pool.slots, Reads text slot := by
  rw [← exists_find?_text_iff]
  constructor
  · intro ran
    obtain ⟨index, ran⟩ := ran
    obtain ⟨short, ran⟩ := internText_eq_ok.mp ran
    refine ⟨short, ?_⟩
    rcases intern_eq_ok.mp ran with ⟨found, -⟩ | ⟨-, appended⟩
    · exact ⟨index, found⟩
    · obtain ⟨-, -, same⟩ := append_eq_ok.mp appended
      have sizes := congrArg (fun grown : Pool => grown.slots.size) same
      simp at sizes
  · intro held
    obtain ⟨short, index, found⟩ := held
    exact ⟨index, internText_eq_ok.mpr ⟨short, intern_eq_ok.mpr (.inl ⟨found, rfl⟩)⟩⟩

end Pool

namespace Modified

/-- Coding is a bijection between texts and the byte strings that can be decoded, and those are
the byte strings that the forms spell. Two byte strings that can be decoded therefore decode to
the same text exactly if they are equal. So comparing bytes finds a text in a pool exactly if a
slot reads as the text, and what is found reads as it; the pool is left as it is exactly in that
case, for a text that is not too long. -/
theorem coding_is_bijective :
    (∀ text, decode? (encode text) = some text) ∧
    (∀ bytes text, decode? bytes = some text → encode text = bytes) ∧
    (∀ bytes text, decode? bytes = some text ↔ Spelled text.toList bytes) ∧
    (∀ bytes bytes' text text', decode? bytes = some text → decode? bytes' = some text' →
      (text = text' ↔ bytes = bytes')) ∧
    (∀ (pool : Pool) (text : String),
      ((∃ index, pool.find? (.utf8 (encode text)) = some index) ↔
        ∃ slot ∈ pool.slots, Pool.Reads text slot) ∧
      ((∃ index, (Pool.internText text).run pool = (.ok index, pool)) ↔
        (encode text).length ≤ 65535 ∧ ∃ slot ∈ pool.slots, Pool.Reads text slot) ∧
      (pool.slots.size ≤ Pool.capacity → ∀ index,
        pool.find? (.utf8 (encode text)) = some index → pool.utf8 index = .ok text)) := by
  refine ⟨decode?_encode, fun bytes text decoded => (decode?_eq_some.mp decoded).symm,
    fun bytes text => spelled_iff.symm, ?_, ?_⟩
  · intro bytes bytes' text text' decoded decoded'
    constructor
    · intro same
      rw [decode?_eq_some.mp decoded, decode?_eq_some.mp decoded', same]
    · intro same
      rw [same, decoded'] at decoded
      exact (Option.some.inj decoded).symm
  · intro pool text
    refine ⟨Pool.exists_find?_text_iff, Pool.internText_unchanged_iff, ?_⟩
    intro bounded index found
    exact Pool.utf8_eq_ok.mpr
      ⟨encode text, Pool.entry?_of_find? bounded found, decode?_encode text⟩

/-- A text with a character of each form, in a pool that also holds a constant of two slots and one
that cannot be decoded. -/
theorem coding_is_bijective_mixed :
    let text := "a\x00é€𝄞"
    let bytes : Bytes := [0x61, 0xC0, 0x80, 0xC3, 0xA9, 0xE2, 0x82, 0xAC, 0xED, 0xA0, 0xB4, 0xED, 0xB4,
      0x9E]
    let pool : Pool := ⟨#[some (.long 7), none, some (.utf8 [0x61, 0x00]), some (.utf8 bytes)]⟩
    decode? bytes = some text ∧ encode text = bytes ∧ decode? [0x61, 0x00] = none ∧
      (∃ index, pool.find? (.utf8 (encode text)) = some index) ∧
      pool.find? (.utf8 (encode text)) = some 4 ∧ pool.utf8 4 = .ok text := by
  intro text bytes pool
  obtain ⟨-, written, -, -, search⟩ := coding_is_bijective
  have decoded : decode? bytes = some text := by decide +kernel
  have same : encode text = bytes := written bytes text decoded
  have fourth : pool.find? (.utf8 (encode text)) = some 4 := by
    rw [same]
    decide +kernel
  obtain ⟨finds, -, reads⟩ := search pool text
  exact ⟨decoded, same, by decide +kernel,
    finds.mpr ⟨some (.utf8 bytes), by simp [pool], bytes, rfl, decoded⟩, fourth,
    reads (by decide) 4 fourth⟩

end Modified

end Downlevel
