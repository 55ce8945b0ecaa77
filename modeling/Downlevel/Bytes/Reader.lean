/-
# Downlevel.Bytes.Reader — reading a byte string from the front

A `Reader α` takes a value off the front of the input and hands on the rest, or
stops with a `Fault`: what went wrong, and the input that was still unread at
that point. The offset of a fault is therefore the length of the whole input
minus the length of `Fault.rest`; no reader has to carry a position along.

A number that does not fit is a fault at the number's first byte. A body that is
shorter than its stated length is a fault at the body's first byte.

`times` reads a counted run of items. It collects them in an accumulator, so
that long tables take no stack; `times_zero` and `times_succ` are its equations
as a plain recursion.
-/
import Downlevel.Bytes

namespace Downlevel

set_option autoImplicit false

inductive FaultKind where
  /-- The input ends inside an item. -/
  | truncated
  /-- The input goes on after the last item. -/
  | trailing
  /-- A tag byte that the format does not assign. -/
  | unknownTag (tag : UInt8)
  /-- The input does not start with the expected magic number. -/
  | badMagic
  /-- A table has no room for the item that was read. -/
  | noRoom
  deriving DecidableEq

/-- Why a reader stopped, and the input it had not read. -/
structure Fault where
  kind : FaultKind
  rest : Bytes
  deriving DecidableEq

/-- Takes a value off the front of a byte string. -/
def Reader (α : Type) : Type :=
  Bytes → Except Fault (α × Bytes)

namespace Reader

variable {α β : Type}

@[always_inline, inline]
protected def pure (a : α) : Reader α := fun input => .ok (a, input)

@[always_inline, inline]
protected def bind (r : Reader α) (f : α → Reader β) : Reader β := fun input =>
  match r input with
  | .ok (a, rest) => f a rest
  | .error fault => .error fault

@[always_inline]
instance : Monad Reader where
  pure := Reader.pure
  bind := Reader.bind

/-- Stops at the current position. -/
def fail (kind : FaultKind) : Reader α := fun input => .error ⟨kind, input⟩

/-! ## Numbers -/

def u8 : Reader UInt8
  | a :: rest => .ok (a, rest)
  | short => .error ⟨.truncated, short⟩

def u16 : Reader UInt16
  | a :: b :: rest => .ok (word16 a b, rest)
  | short => .error ⟨.truncated, short⟩

def u32 : Reader UInt32
  | a :: b :: c :: d :: rest => .ok (word32 a b c d, rest)
  | short => .error ⟨.truncated, short⟩

def u64 : Reader UInt64
  | a :: b :: c :: d :: e :: f :: g :: h :: rest =>
      .ok (word64 (word32 a b c d) (word32 e f g h), rest)
  | short => .error ⟨.truncated, short⟩

/-! ## Bodies and tables -/

/-- Takes exactly `n` bytes. -/
def take (n : Nat) : Reader Bytes := fun input =>
  let body := input.take n
  if body.length = n then .ok (body, input.drop n) else .error ⟨.truncated, input⟩

/-- Succeeds at the end of the input only. -/
def atEnd : Reader Unit
  | [] => .ok ((), [])
  | rest => .error ⟨.trailing, rest⟩

/-- Reads `n` items onto the reversed list of those read before. -/
def timesOnto (item : Reader α) : List α → Nat → Reader (List α)
  | read, 0, input => .ok (read.reverse, input)
  | read, n + 1, input =>
      match item input with
      | .ok (a, rest) => timesOnto item (a :: read) n rest
      | .error fault => .error fault

/-- Reads `n` items in a row. -/
def times (item : Reader α) (n : Nat) : Reader (List α) :=
  timesOnto item [] n

/-- Reads a table: a 16-bit count, then that many items. -/
def table (item : Reader α) : Reader (List α) := do
  times item (← u16).toNat

/-- Reads the whole input as one value. -/
def whole (r : Reader α) : Reader α := do
  let a ← r
  atEnd
  return a

/-! ## Equations -/

theorem pure_apply (a : α) (input : Bytes) : (pure a : Reader α) input = .ok (a, input) := rfl

theorem bind_apply (r : Reader α) (f : α → Reader β) (input : Bytes) :
    (r >>= f) input =
      match r input with
      | .ok (a, rest) => f a rest
      | .error fault => .error fault := rfl

theorem timesOnto_eq (item : Reader α) (n : Nat) :
    ∀ (read : List α) (input : Bytes),
      timesOnto item read n input =
        match timesOnto item [] n input with
        | .ok (as, rest) => .ok (read.reverse ++ as, rest)
        | .error fault => .error fault := by
  induction n with
  | zero => intro read input; simp [timesOnto]
  | succ n ih =>
      intro read input
      simp only [timesOnto]
      cases item input with
      | error fault => rfl
      | ok first =>
          obtain ⟨a, rest⟩ := first
          simp only
          rw [ih (a :: read) rest, ih [a] rest]
          cases timesOnto item [] n rest with
          | error fault => rfl
          | ok others => simp

theorem times_zero (item : Reader α) (input : Bytes) : times item 0 input = .ok ([], input) := rfl

theorem times_succ (item : Reader α) (n : Nat) (input : Bytes) :
    times item (n + 1) input =
      match item input with
      | .error fault => .error fault
      | .ok (a, rest) =>
          match times item n rest with
          | .error fault => .error fault
          | .ok (as, rest') => .ok (a :: as, rest') := by
  simp only [times, timesOnto]
  cases item input with
  | error fault => rfl
  | ok first =>
      obtain ⟨a, rest⟩ := first
      simp only
      rw [timesOnto_eq]
      cases timesOnto item [] n rest with
      | error fault => rfl
      | ok others => simp

end Reader

end Downlevel
