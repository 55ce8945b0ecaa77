/-
# Downlevel.Proofs.Text.Modified — coded text reads back

Decoding what was encoded gives the text back (`decode?_encode`). A character takes one of
five forms; each of them is put on the list of characters and decoding goes on behind it
(`decodeOnto_encodeChar`).
-/
import Downlevel.Text.Modified

namespace Downlevel.Modified

set_option autoImplicit false

theorem continuation?_ofNat {n : Nat} (small : n < 64) :
    continuation? (UInt8.ofNat (0x80 + n)) = some n := by
  have value : (UInt8.ofNat (0x80 + n)).toNat = 0x80 + n := by
    rw [UInt8.toNat_ofNat']
    omega
  rw [continuation?, value, if_pos (by omega), Nat.add_sub_cancel_left]

theorem twoByte?_ofNat {n : Nat} (shape : n = 0 ∨ 0x80 ≤ n) (small : n < 0x800) :
    twoByte? (UInt8.ofNat (0xC0 + n / 64)) (UInt8.ofNat (0x80 + n % 64)) = some n := by
  have value : (UInt8.ofNat (0xC0 + n / 64)).toNat = 0xC0 + n / 64 := by
    rw [UInt8.toNat_ofNat']
    omega
  rw [twoByte?, value, if_pos (by omega), continuation?_ofNat (Nat.mod_lt n (by decide))]
  have whole : (0xC0 + n / 64 - 0xC0) * 64 + n % 64 = n := by omega
  simp only [whole, if_pos shape]

theorem threeByte?_ofNat {n : Nat} (large : 0x800 ≤ n) (small : n < 0x10000) :
    threeByte? (UInt8.ofNat (0xE0 + n / 4096)) (UInt8.ofNat (0x80 + n / 64 % 64))
      (UInt8.ofNat (0x80 + n % 64)) = some n := by
  have value : (UInt8.ofNat (0xE0 + n / 4096)).toNat = 0xE0 + n / 4096 := by
    rw [UInt8.toNat_ofNat']
    omega
  rw [threeByte?, value, if_pos (by omega), continuation?_ofNat (Nat.mod_lt _ (by decide)),
    continuation?_ofNat (Nat.mod_lt n (by decide))]
  have whole : (0xE0 + n / 4096 - 0xE0) * 4096 + n / 64 % 64 * 64 + n % 64 = n := by omega
  simp only [whole, if_pos large]

/-! ## One form at a time -/

theorem decodeOnto_oneByte {n : Nat} (positive : n ≠ 0) (small : n < 0x80) (read : List Char)
    (rest : Bytes) :
    decodeOnto read (UInt8.ofNat n :: rest) = decodeOnto (Char.ofNat n :: read) rest := by
  have value : (UInt8.ofNat n).toNat = n := by
    rw [UInt8.toNat_ofNat']
    omega
  rw [decodeOnto.eq_def]
  simp only [value, if_neg positive, if_pos small]

theorem decodeOnto_twoBytes {n : Nat} (shape : n = 0 ∨ 0x80 ≤ n) (small : n < 0x800)
    (read : List Char) (rest : Bytes) :
    decodeOnto read (twoBytes n ++ rest) = decodeOnto (Char.ofNat n :: read) rest := by
  have value : (UInt8.ofNat (0xC0 + n / 64)).toNat = 0xC0 + n / 64 := by
    rw [UInt8.toNat_ofNat']
    omega
  rw [twoBytes, List.cons_append, List.cons_append, List.nil_append, decodeOnto, value,
    if_neg (by omega), if_neg (by omega), if_pos (by omega)]
  simp only [twoByte?_ofNat shape small]

theorem decodeOnto_threeBytes {n : Nat} (large : 0x800 ≤ n) (small : n < 0x10000)
    (plain : n < 0xD800 ∨ 0xE000 ≤ n) (read : List Char) (rest : Bytes) :
    decodeOnto read (threeBytes n ++ rest) = decodeOnto (Char.ofNat n :: read) rest := by
  have value : (UInt8.ofNat (0xE0 + n / 4096)).toNat = 0xE0 + n / 4096 := by
    rw [UInt8.toNat_ofNat']
    omega
  rw [threeBytes, List.cons_append, List.cons_append, List.cons_append, List.nil_append,
    decodeOnto, value, if_neg (by omega), if_neg (by omega), if_neg (by omega)]
  simp only [threeByte?_ofNat large small, if_pos plain]

theorem decodeOnto_pair {high low : Nat} (isHigh : 0xD800 ≤ high ∧ high < 0xDC00)
    (isLow : 0xDC00 ≤ low ∧ low < 0xE000) (read : List Char) (rest : Bytes) :
    decodeOnto read (threeBytes high ++ (threeBytes low ++ rest)) =
      decodeOnto (pair high low :: read) rest := by
  have value : (UInt8.ofNat (0xE0 + high / 4096)).toNat = 0xE0 + high / 4096 := by
    rw [UInt8.toNat_ofNat']
    omega
  simp only [threeBytes, List.cons_append, List.nil_append]
  rw [decodeOnto, value, if_neg (by omega), if_neg (by omega), if_neg (by omega)]
  simp only [threeByte?_ofNat (n := high) (by omega) (by omega),
    threeByte?_ofNat (n := low) (by omega) (by omega)]
  rw [if_neg (by omega), if_neg (by omega), if_pos isLow]

/-! ## Text -/

theorem decodeOnto_encodeChar (c : Char) (read : List Char) (rest : Bytes) :
    decodeOnto read (encodeChar c ++ rest) = decodeOnto (c :: read) rest := by
  have valid : c.toNat < 0xD800 ∨ 0xDFFF < c.toNat ∧ c.toNat < 0x110000 := c.valid
  have back := Char.ofNat_toNat c
  unfold encodeChar
  simp only
  split
  · rename_i zero
    rw [decodeOnto_twoBytes (.inl rfl) (by decide), ← zero, back]
  split
  · rename_i positive small
    rw [List.cons_append, List.nil_append, decodeOnto_oneByte positive small, back]
  split
  · rename_i large small
    rw [decodeOnto_twoBytes (.inr (by omega)) small, back]
  split
  · rename_i large small
    rw [decodeOnto_threeBytes (by omega) small (by omega), back]
  · rename_i large
    rw [List.append_assoc, decodeOnto_pair (by omega) (by omega), pair]
    have whole : 0x10000 + (0xD800 + (c.toNat - 0x10000) / 0x400 - 0xD800) * 0x400 +
        (0xDC00 + (c.toNat - 0x10000) % 0x400 - 0xDC00) = c.toNat := by omega
    rw [whole, back]

theorem decodeOnto_encodeChars (cs read : List Char) :
    decodeOnto read (encodeChars cs) = some (read.reverse ++ cs) := by
  induction cs generalizing read with
  | nil => rw [encodeChars, List.flatMap_nil, decodeOnto, List.append_nil]
  | cons c cs ih =>
      rw [encodeChars, List.flatMap_cons, decodeOnto_encodeChar]
      rw [← encodeChars, ih, List.reverse_cons, List.append_assoc]
      rfl

@[simp] theorem decode?_encode (text : String) : decode? (encode text) = some text := by
  rw [decode?, decodeChars?, encode, decodeOnto_encodeChars, Option.map_some, List.reverse_nil,
    List.nil_append, String.ofList_toList]

end Downlevel.Modified
