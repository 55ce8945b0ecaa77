/-
# Downlevel.Text.Lenient — showing bytes that may not be UTF-8

Text that comes from outside is nearly always UTF-8. Where it is not, it is still shown:
each longest run of bytes that starts a character but does not complete it becomes one
replacement character, and so does each byte that cannot start a character.

A character's first byte says how many bytes follow. It also narrows the range of the
second byte, so that no character has two forms and no surrogate has any.
-/
import Downlevel.Bytes

namespace Downlevel.Lenient

set_option autoImplicit false

/-- Stands for bytes that are no character. -/
def replacement : Char := Char.ofNat 0xFFFD

/-- Where the decoder stands. -/
inductive State where
  /-- Between two characters. -/
  | between
  /-- Within a character: `left` bytes are still to come, the next one from `low` to `high`,
  and `value` is what the bytes so far amount to. -/
  | within (left value low high : Nat)
  deriving DecidableEq

/-- Starts a character: what is shown at once, and where the decoder stands then. -/
def start (b : Nat) : List Char × State :=
  if b < 0x80 then ([Char.ofNat b], .between)
  else if b < 0xC2 then ([replacement], .between)
  else if b < 0xE0 then ([], .within 1 (b - 0xC0) 0x80 0xBF)
  else if b < 0xF0 then
    ([], .within 2 (b - 0xE0) (if b = 0xE0 then 0xA0 else 0x80) (if b = 0xED then 0x9F else 0xBF))
  else if b < 0xF5 then
    ([], .within 3 (b - 0xF0) (if b = 0xF0 then 0x90 else 0x80) (if b = 0xF4 then 0x8F else 0xBF))
  else ([replacement], .between)

/-- Takes one byte. A byte that does not fit ends the character and starts the next. -/
def step : State → Nat → List Char × State
  | .between, b => start b
  | .within left value low high, b =>
      if low ≤ b ∧ b ≤ high then
        let value := value * 64 + (b - 0x80)
        if left = 1 then ([Char.ofNat value], .between) else ([], .within (left - 1) value 0x80 0xBF)
      else
        let (shown, state) := start b
        (replacement :: shown, state)

/-- Decodes onto the reversed list of the characters shown before. -/
def decodeOnto : List Char → State → Bytes → List Char
  | shown, .between, [] => shown.reverse
  | shown, .within .., [] => (replacement :: shown).reverse
  | shown, state, b :: rest =>
      let (more, state) := step state b.toNat
      decodeOnto (more.reverse ++ shown) state rest

def text (bytes : Bytes) : String :=
  String.ofList (decodeOnto [] .between bytes)

end Downlevel.Lenient
