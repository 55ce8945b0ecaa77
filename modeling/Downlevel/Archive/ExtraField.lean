/-
# Downlevel.Archive.ExtraField — further fields of a header

A header may carry further fields, each with a kind and a length. Some amend the header:
sizes and offsets of more than four bytes, a name or comment in UTF-8, the cipher of
encrypted data. Times are passed over, but their form is checked, and fields of unknown
kind are passed over unseen.

A field that contradicts itself spoils the header (`Stop.refused`). Fields that are cut
off by the end of the header do not: what was read up to there counts (`Stop.cutOff`).
-/
import Downlevel.Archive.Checksum
import Downlevel.Archive.Header

namespace Downlevel.Archive

set_option autoImplicit false

namespace ExtraField

/-- Why the fields of a header are not read further. -/
inductive Stop where
  | cutOff (header : Header)
  | refused

/-- Takes `n` bytes. -/
def takeBytes (header : Header) (n : Nat) (bytes : Bytes) : Except Stop (Bytes × Bytes) :=
  if n ≤ bytes.length then .ok (bytes.take n, bytes.drop n) else .error (.cutOff header)

/-- Takes a number of `n` bytes. -/
def takeNumber (header : Header) (n : Nat) (bytes : Bytes) : Except Stop (Nat × Bytes) := do
  let (digits, rest) ← takeBytes header n bytes
  return (digits.foldr (fun b value => b.toNat + 256 * value) 0, rest)

def require (condition : Bool) : Except Stop Unit :=
  if condition then .ok () else .error .refused

/-- Passes over `n` bytes. -/
def pass (header : Header) (n : Nat) (bytes : Bytes) : Except Stop Bytes := do
  return (← takeBytes header n bytes).2

/-! ## Kinds of fields -/

/-- Sizes and offset in eight bytes each: all of them in a long field, else those that are at
the limit of four bytes. -/
def wideNumbers (header : Header) (length : Nat) (bytes : Bytes) :
    Except Stop (Header × Bytes) := do
  let all := decide (24 ≤ length)
  let before := bytes.length
  let (header, bytes) ←
    if all || header.size == longLimit then do
      let (size, rest) ← takeNumber header 8 bytes
      pure ({ header with size := size }, rest)
    else pure (header, bytes)
  let (header, bytes) ←
    if all || header.storedSize == longLimit then do
      let (size, rest) ← takeNumber header 8 bytes
      pure ({ header with storedSize := size }, rest)
    else pure (header, bytes)
  let (header, bytes) ←
    if all || header.offset == longLimit then do
      let (offset, rest) ← takeNumber header 8 bytes
      pure ({ header with offset := offset }, rest)
    else pure (header, bytes)
  let used := before - bytes.length
  require (used ≤ length)
  return (header, ← pass header (length - used) bytes)

/-- Three times, in a field of fixed form. -/
def preciseTimes (header : Header) (length : Nat) (bytes : Bytes) :
    Except Stop (Header × Bytes) := do
  require (length == 32)
  let bytes ← pass header 4 bytes
  let (tag, bytes) ← takeNumber header 2 bytes
  require (tag == 1)
  let (size, bytes) ← takeNumber header 2 bytes
  require (size == 24)
  return (header, ← pass header 24 bytes)

/-- Times of four bytes each, one for every flag that is set. A field with a single time may have
any flags. -/
def shortTimes (header : Header) (length : Nat) (bytes : Bytes) :
    Except Stop (Header × Bytes) := do
  let (flags, bytes) ← takeNumber header 1 bytes
  require (length == 5 || length == 1 + 4 * (List.range 8).countP (flags.testBit ·))
  return (header, ← pass header (length - 1) bytes)

/-- The cipher of encrypted data, and the method of compression below it. -/
def cipher (header : Header) (length : Nat) (bytes : Bytes) : Except Stop (Header × Bytes) := do
  require (length == 7)
  let (version, bytes) ← takeNumber header 2 bytes
  let (vendor, bytes) ← takeNumber header 2 bytes
  let (strength, bytes) ← takeNumber header 1 bytes
  let (method, bytes) ← takeNumber header 2 bytes
  require (vendor == 0x4541)
  require (version == 1 || version == 2)
  require (1 ≤ strength && strength ≤ 3)
  return ({ header with cipherKnown := true, method := method }, bytes)

/-- A text in UTF-8 that takes the place of one in another coding, whose checksum it gives. -/
def unicodeText (header : Header) (replaced : Bytes) (length : Nat) (bytes : Bytes) :
    Except Stop (String × Bytes × Bytes) := do
  let bytes ← pass header 1 bytes
  let (checksum, bytes) ← takeNumber header 4 bytes
  require (5 ≤ length)
  let (content, bytes) ← takeBytes header (length - 5) bytes
  require (Checksum.crc32 replaced == UInt32.ofNat checksum)
  match String.fromUTF8? ⟨content.toArray⟩ with
  | some text => return (text, content, bytes)
  | none => throw .refused

/-! ## All fields -/

/-- Reads the contents of one field. -/
def readContents (header : Header) (kind length : Nat) (bytes : Bytes) :
    Except Stop (Header × Bytes) :=
  match kind with
  | 0x0001 => wideNumbers header length bytes
  | 0x000A => preciseTimes header length bytes
  | 0x5455 => shortTimes header length bytes
  | 0x9901 => cipher header length bytes
  | 0x6375 => do
      let (text, _, bytes) ← unicodeText header header.comment.toUTF8.toList length bytes
      return ({ header with comment := text }, bytes)
  | 0x7075 => do
      let (text, content, bytes) ← unicodeText header header.nameBytes length bytes
      return ({ header with nameBytes := content, name := text }, bytes)
  | _ => do return (header, ← pass header length bytes)

def read (header : Header) (bytes : Bytes) : Except Stop (Header × Bytes) := do
  let (kind, bytes) ← takeNumber header 2 bytes
  let (length, bytes) ← takeNumber header 2 bytes
  readContents header kind length bytes

/-- Reads fields to the end. Every field takes a byte, so the number of bytes bounds the number
of fields. -/
def readAll : Nat → Header → Bytes → Option Header
  | 0, header, _ => some header
  | fuel + 1, header, bytes =>
      match read header bytes with
      | .ok (header, rest) => readAll fuel header rest
      | .error (.cutOff header) => some header
      | .error .refused => none

end ExtraField

/-- The header with its further fields; nothing if they spoil it. Encrypted data must come with
its cipher. -/
def Header.amend (header : Header) (extra : Bytes) : Option Header := do
  let header ← ExtraField.readAll extra.length header extra
  guard (header.method ≠ cipherMethod ∨ header.cipherKnown)
  return header

end Downlevel.Archive
