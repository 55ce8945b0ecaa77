/-
# Downlevel.Malformed — what can be wrong with a class file

Each constructor is one cause; `message` is its wording. Two causes also leave an
event in the journal: a constant of the wrong kind, and a constant tag that the
format does not assign. Both events are functions of the cause (`event?`), so a
lookup that fails need not carry a journal along.
-/
import Downlevel.Bytes.Reader
import Downlevel.Constant
import Downlevel.Journal

namespace Downlevel

set_option autoImplicit false

inductive Malformed where
  /-- The bytes are not a class file: the fault and its offset. -/
  | unreadable (offset : Nat) (kind : FaultKind)
  /-- No usable constant stands at the index. -/
  | badIndex (index : UInt16)
  /-- The constant at the index is of another kind than expected. -/
  | wrongKind (index : UInt16) (expected : Expectation) (found : Constant)
  /-- The text at the index cannot be decoded. -/
  | badText (index : UInt16)
  | badDescriptor (text : String)
  | badOpcode (opcode : UInt8) (offset : Nat)
  /-- The offset does not start an instruction. -/
  | badOffset (offset : Nat)
  | badAttribute (name : String)
  /-- The bootstrap table has no such entry. -/
  | noBootstrap (index : UInt16)
  | badReferenceKind (kind : UInt8)
  deriving DecidableEq

def FaultKind.text : FaultKind → String
  | .truncated => "Eof"
  | .trailing => "Eof"
  | .unknownTag _ => "Tag"
  | .badMagic => "Tag"
  | .noRoom => "Count"

def hexDigit (n : Nat) : Char :=
  if n < 10 then Char.ofNat ('0'.toNat + n) else Char.ofNat ('a'.toNat + n - 10)

/-- A byte as two hexadecimal digits. -/
def hexByte (b : UInt8) : String :=
  String.ofList [hexDigit (b.toNat / 16), hexDigit (b.toNat % 16)]

namespace Malformed

def message : Malformed → String
  | unreadable offset kind =>
      "class file is malformed at byte " ++ toString offset ++ " (" ++ kind.text ++ ")"
  | badIndex index => "invalid constant pool index " ++ toString index.toNat
  | wrongKind index expected _ =>
      "constant pool entry " ++ toString index.toNat ++ " is not a " ++ expected.text
  | badText index =>
      "constant pool entry " ++ toString index.toNat ++ " is not valid modified UTF-8"
  | badDescriptor text => "invalid descriptor `" ++ text ++ "`"
  | badOpcode opcode offset =>
      "invalid opcode 0x" ++ hexByte opcode ++ " at code offset " ++ toString offset
  | badOffset offset => "code offset " ++ toString offset ++ " does not start an instruction"
  | badAttribute name => "malformed " ++ name ++ " attribute"
  | noBootstrap index => "bootstrap method " ++ toString index.toNat ++ " is not declared"
  | badReferenceKind kind => "invalid method handle reference kind " ++ toString kind.toNat

/-- The event that a cause leaves in the journal. -/
def event? : Malformed → Option Event
  | unreadable _ (.unknownTag tag) =>
      some ⟨.debug, "unknown constant pool tag", [("tag", toString tag.toNat)]⟩
  | wrongKind index expected found =>
      some ⟨.trace, "constant pool type mismatch",
        [("index", toString index.toNat), ("expected", expected.text), ("found", found.kind)]⟩
  | _ => none

end Malformed

end Downlevel
