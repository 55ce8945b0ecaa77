/-
# Downlevel.Archive.Inflate — undoing deflate compression

Compressed data is a string of bits, the lowest bit of each byte first. It is cut
into blocks; a block is stored as it is, or codes literal bytes and copies of
earlier output with a fixed or a transmitted pair of prefix codes.

A prefix code is given by how many codes there are of each length and by the symbols
in the order of their codes. A transmitted code must use up its codes exactly, apart
from a code of a single symbol. Data gives its output only if it holds together up to
the end of the last block (`inflate`); what follows that block is not looked at.
-/
import Downlevel.Bytes

namespace Downlevel.Inflate

set_option autoImplicit false

abbrev Bits := List Bool

def bitsOf (bytes : Bytes) : Bits :=
  bytes.flatMap fun b => (List.range 8).map fun i => b.toNat.testBit i

/-- Takes `n` bits as a number, the lowest bit first. -/
def takeBits : Nat → Bits → Option (Nat × Bits)
  | 0, bits => some (0, bits)
  | _ + 1, [] => none
  | n + 1, bit :: bits =>
      match takeBits n bits with
      | some (value, rest) => some (bit.toNat + 2 * value, rest)
      | none => none

/-! ## Prefix codes -/

structure PrefixCode where
  /-- The number of codes of length 1, 2, and so on. -/
  counts : List Nat
  /-- The symbols in the order of their codes. -/
  symbols : Array Nat

namespace PrefixCode

/-- The canonical code in which symbol `i` has a code of length `lengths[i]`; length 0 is
for symbols that do not occur. -/
def ofLengths (lengths : List Nat) : PrefixCode :=
  let sizes := (List.range 15).map (· + 1)
  { counts := sizes.map fun size => lengths.count size
    symbols := (sizes.flatMap fun size =>
      (lengths.zipIdx.filter fun entry => entry.1 == size).map Prod.snd).toArray }

/-- How many codes of the greatest length are left over when each length in turn takes its
codes out of `free`; nothing if some length has too few. -/
def spareFrom : List Nat → Nat → Option Nat
  | [], free => some free
  | count :: counts, free =>
      if count ≤ 2 * free then spareFrom counts (2 * free - count) else none

/-- Whether every string of bits starts with a code, and with only one. -/
def isComplete (code : PrefixCode) : Bool :=
  spareFrom code.counts 1 == some 0

/-- Whether no symbol has a code, or only one symbol and that a code of one bit. -/
def isTrivial (code : PrefixCode) : Bool :=
  code.counts.head? == some code.symbols.size && code.symbols.size ≤ 1

/-- Decodes one symbol: `code` is the bits so far, `first` the first code of this length,
`index` the number of shorter codes. -/
def decodeFrom (symbols : Array Nat) : List Nat → Nat → Nat → Nat → Bits → Option (Nat × Bits)
  | [], _, _, _, _ => none
  | _ :: _, _, _, _, [] => none
  | count :: counts, code, first, index, bit :: bits =>
      let code := code + bit.toNat
      if code < first + count then
        match symbols[index + (code - first)]? with
        | some symbol => some (symbol, bits)
        | none => none
      else decodeFrom symbols counts (2 * code) (2 * (first + count)) (index + count) bits

def decode (code : PrefixCode) (bits : Bits) : Option (Nat × Bits) :=
  decodeFrom code.symbols code.counts 0 0 0 bits

end PrefixCode

/-! ## Copies -/

/-- The shortest length and the number of extra bits of each length symbol, from 257 on. -/
def lengthTable : Array (Nat × Nat) :=
  #[(3, 0), (4, 0), (5, 0), (6, 0), (7, 0), (8, 0), (9, 0), (10, 0), (11, 1), (13, 1), (15, 1),
    (17, 1), (19, 2), (23, 2), (27, 2), (31, 2), (35, 3), (43, 3), (51, 3), (59, 3), (67, 4),
    (83, 4), (99, 4), (115, 4), (131, 5), (163, 5), (195, 5), (227, 5), (258, 0)]

/-- The shortest distance and the number of extra bits of each distance symbol. -/
def distanceTable : Array (Nat × Nat) :=
  #[(1, 0), (2, 0), (3, 0), (4, 0), (5, 1), (7, 1), (9, 2), (13, 2), (17, 3), (25, 3), (33, 4),
    (49, 4), (65, 5), (97, 5), (129, 6), (193, 6), (257, 7), (385, 7), (513, 8), (769, 8),
    (1025, 9), (1537, 9), (2049, 10), (3073, 10), (4097, 11), (6145, 11), (8193, 12),
    (12289, 12), (16385, 13), (24577, 13)]

/-- The value of a symbol with its extra bits. -/
def extended (table : Array (Nat × Nat)) (symbol : Nat) (bits : Bits) : Option (Nat × Bits) := do
  let (base, extra) ← table[symbol]?
  let (value, rest) ← takeBits extra bits
  return (base + value, rest)

/-- How many bytes to copy and from how far back, after the symbol of the length. -/
def takeCopy (distance : PrefixCode) (symbol : Nat) (bits : Bits) :
    Option ((Nat × Nat) × Bits) := do
  let (length, bits) ← extended lengthTable (symbol - 257) bits
  let (mark, bits) ← distance.decode bits
  let (back, bits) ← extended distanceTable mark bits
  return ((length, back), bits)

/-- Appends `length` bytes of earlier output. -/
def copy (distance : Nat) : Nat → Array UInt8 → Array UInt8
  | 0, output => output
  | length + 1, output =>
      copy distance length (output.push (output.getD (output.size - distance) 0))

/-! ## Blocks -/

/-- The output so far and the unread bits; nothing if the data is damaged. -/
abbrev Progress := Option (Array UInt8 × Bits)

/-- Decodes the symbols of a block up to its end mark. Every symbol takes a bit, so the
number of bits bounds the number of symbols. -/
def symbols (literal distance : PrefixCode) : Nat → Array UInt8 → Bits → Progress
  | 0, _, _ => none
  | fuel + 1, output, bits =>
      match literal.decode bits with
      | none => none
      | some (symbol, bits) =>
          if symbol < 256 then
            symbols literal distance fuel (output.push (UInt8.ofNat symbol)) bits
          else if symbol = 256 then some (output, bits)
          else
            match takeCopy distance symbol bits with
            | none => none
            | some ((length, back), bits) =>
                if back ≤ output.size then
                  symbols literal distance fuel (copy back length output) bits
                else none

/-- Takes `n` whole bytes. -/
def storedBytes : Nat → Array UInt8 → Bits → Progress
  | 0, output, bits => some (output, bits)
  | n + 1, output, bits =>
      match takeBits 8 bits with
      | some (value, rest) => storedBytes n (output.push (UInt8.ofNat value)) rest
      | none => none

/-- A stored block starts at a whole byte and gives its length twice, once with all bits
turned over. -/
def stored (output : Array UInt8) (bits : Bits) : Progress := do
  let (length, rest) ← takeBits 16 (bits.drop (bits.length % 8))
  let (check, rest) ← takeBits 16 rest
  if length + check = 65535 then storedBytes length output rest else none

def fixedLiteral : PrefixCode :=
  .ofLengths (List.replicate 144 8 ++ List.replicate 112 9 ++ List.replicate 24 7 ++
    List.replicate 8 8)

def fixedDistance : PrefixCode :=
  .ofLengths (List.replicate 30 5)

/-! ## Transmitted codes -/

/-- The order in which the lengths of the length code itself are sent. -/
def sentOrder : List Nat :=
  [16, 17, 18, 0, 8, 7, 9, 6, 10, 5, 11, 4, 12, 3, 13, 2, 14, 1, 15]

/-- Takes `n` three-bit lengths. -/
def takeLengths : Nat → Bits → Option (List Nat × Bits)
  | 0, bits => some ([], bits)
  | n + 1, bits => do
      let (length, bits) ← takeBits 3 bits
      let (rest, bits) ← takeLengths n bits
      return (length :: rest, bits)

/-- The lengths of the length code, by symbol. -/
def lengthsBySymbol (sent : List Nat) : List Nat :=
  (List.range 19).map fun symbol =>
    match (sentOrder.zip sent).find? fun entry => entry.1 == symbol with
    | some entry => entry.2
    | none => 0

/-- The lengths that a symbol of the length code stands for, after those `known` (reversed):
one length, the last one several times, or a run of zeros. -/
def takeRun (symbol : Nat) (known : List Nat) (bits : Bits) : Option (List Nat × Bits) :=
  match symbol with
  | 16 => do
      let last ← known.head?
      let (extra, bits) ← takeBits 2 bits
      return (List.replicate (3 + extra) last, bits)
  | 17 => do
      let (extra, bits) ← takeBits 3 bits
      return (List.replicate (3 + extra) 0, bits)
  | 18 => do
      let (extra, bits) ← takeBits 7 bits
      return (List.replicate (11 + extra) 0, bits)
  | length => some ([length], bits)

/-- Decodes code lengths until `total` are known; `known` is reversed. -/
def codeLengths (code : PrefixCode) (total : Nat) : Nat → List Nat → Bits →
    Option (List Nat × Bits)
  | 0, _, _ => none
  | fuel + 1, known, bits =>
      if known.length = total then some (known.reverse, bits)
      else if total < known.length then none
      else
        match code.decode bits with
        | none => none
        | some (symbol, bits) =>
            match takeRun symbol known bits with
            | none => none
            | some (more, bits) => codeLengths code total fuel (more ++ known) bits

/-- Reads the two prefix codes of a block. There must be a code for the end mark. -/
def transmittedCodes (bits : Bits) : Option ((PrefixCode × PrefixCode) × Bits) := do
  let (literals, bits) ← takeBits 5 bits
  let (distances, bits) ← takeBits 5 bits
  let (sent, bits) ← takeBits 4 bits
  let literalCount := literals + 257
  let distanceCount := distances + 1
  guard (literalCount ≤ 286 ∧ distanceCount ≤ 30)
  let (lengths, bits) ← takeLengths (sent + 4) bits
  let lengthCode := PrefixCode.ofLengths (lengthsBySymbol lengths)
  guard lengthCode.isComplete
  let total := literalCount + distanceCount
  let (known, bits) ← codeLengths lengthCode total (total + 1) [] bits
  guard (known[256]? ≠ some 0)
  let literal := PrefixCode.ofLengths (known.take literalCount)
  let distance := PrefixCode.ofLengths (known.drop literalCount)
  guard (literal.isComplete || literal.isTrivial)
  guard (distance.isComplete || distance.isTrivial)
  return ((literal, distance), bits)

def transmitted (output : Array UInt8) (bits : Bits) : Progress := do
  let ((literal, distance), rest) ← transmittedCodes bits
  symbols literal distance rest.length output rest

/-! ## The whole -/

def block (kind : Nat) (output : Array UInt8) (bits : Bits) : Progress :=
  match kind with
  | 0 => stored output bits
  | 1 => symbols fixedLiteral fixedDistance bits.length output bits
  | 2 => transmitted output bits
  | _ => none

/-- Decodes blocks up to the last one. Every block takes three bits, so the number of bits
bounds the number of blocks. -/
def blocks : Nat → Array UInt8 → Bits → Option (Array UInt8)
  | 0, _, _ => none
  | fuel + 1, output, bits =>
      match takeBits 3 bits with
      | none => none
      | some (header, rest) =>
          match block (header / 2) output rest with
          | none => none
          | some (output, rest) =>
              if header % 2 = 1 then some output else blocks fuel output rest

/-- The decompressed data; nothing if the compressed data is damaged or ends early. -/
def inflate (bytes : Bytes) : Option Bytes :=
  let bits := bitsOf bytes
  (blocks bits.length #[] bits).map Array.toList

end Downlevel.Inflate
