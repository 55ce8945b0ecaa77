/-
# Downlevel.Text.Modified — the text coding of class files

Class files store text in a variant of UTF-8. It differs from the usual coding
in two places: NUL is written in the two-byte form `c0 80`, so that no zero byte
occurs, and a character outside the basic plane is written as a surrogate pair,
each half in the three-byte form.

`encode` writes text; `decode?` reads exactly what `encode` writes. A plain zero
byte, a form longer than its value needs, a lone or swapped surrogate, a
four-byte form and a form cut short are all refused.
-/
import Downlevel.Bytes

namespace Downlevel.Modified

set_option autoImplicit false

/-! ## Encoding -/

def twoBytes (n : Nat) : Bytes :=
  [UInt8.ofNat (0xC0 + n / 64), UInt8.ofNat (0x80 + n % 64)]

def threeBytes (n : Nat) : Bytes :=
  [UInt8.ofNat (0xE0 + n / 4096), UInt8.ofNat (0x80 + n / 64 % 64), UInt8.ofNat (0x80 + n % 64)]

def encodeChar (c : Char) : Bytes :=
  let n := c.toNat
  if n = 0 then twoBytes 0
  else if n < 0x80 then [UInt8.ofNat n]
  else if n < 0x800 then twoBytes n
  else if n < 0x10000 then threeBytes n
  else threeBytes (0xD800 + (n - 0x10000) / 0x400) ++ threeBytes (0xDC00 + (n - 0x10000) % 0x400)

def encodeChars (cs : List Char) : Bytes :=
  cs.flatMap encodeChar

def encode (text : String) : Bytes :=
  encodeChars text.toList

/-! ## Decoding -/

/-- The six bits of a continuation byte. -/
def continuation? (b : UInt8) : Option Nat :=
  if 0x80 ≤ b.toNat ∧ b.toNat < 0xC0 then some (b.toNat - 0x80) else none

/-- The value of a two-byte form; only NUL may be shorter than the form needs. -/
def twoByte? (a b : UInt8) : Option Nat :=
  if 0xC0 ≤ a.toNat ∧ a.toNat < 0xE0 then
    match continuation? b with
    | some low =>
        let n := (a.toNat - 0xC0) * 64 + low
        if n = 0 ∨ 0x80 ≤ n then some n else none
    | none => none
  else none

/-- The value of a three-byte form, surrogates included. -/
def threeByte? (a b c : UInt8) : Option Nat :=
  if 0xE0 ≤ a.toNat ∧ a.toNat < 0xF0 then
    match continuation? b, continuation? c with
    | some middle, some low =>
        let n := (a.toNat - 0xE0) * 4096 + middle * 64 + low
        if 0x800 ≤ n then some n else none
    | _, _ => none
  else none

/-- The character that a pair of surrogates stands for. -/
def pair (high low : Nat) : Char :=
  Char.ofNat (0x10000 + (high - 0xD800) * 0x400 + (low - 0xDC00))

/-- Decodes onto the reversed list of the characters read before. -/
def decodeOnto : List Char → Bytes → Option (List Char)
  | read, [] => some read.reverse
  | read, a :: rest =>
      if a.toNat = 0 then none
      else if a.toNat < 0x80 then decodeOnto (Char.ofNat a.toNat :: read) rest
      else if a.toNat < 0xE0 then
        match rest with
        | b :: rest =>
            match twoByte? a b with
            | some n => decodeOnto (Char.ofNat n :: read) rest
            | none => none
        | _ => none
      else
        match rest with
        | b :: c :: rest =>
            match threeByte? a b c with
            | some n =>
                if n < 0xD800 ∨ 0xE000 ≤ n then decodeOnto (Char.ofNat n :: read) rest
                else if 0xDC00 ≤ n then none
                else
                  match rest with
                  | d :: e :: f :: rest =>
                      match threeByte? d e f with
                      | some m =>
                          if 0xDC00 ≤ m ∧ m < 0xE000 then decodeOnto (pair n m :: read) rest
                          else none
                      | none => none
                  | _ => none
            | none => none
        | _ => none

def decodeChars? (bytes : Bytes) : Option (List Char) :=
  decodeOnto [] bytes

def decode? (bytes : Bytes) : Option String :=
  (decodeChars? bytes).map String.ofList

end Downlevel.Modified
