/-
# Downlevel.Version — class file versions

A version is a major and a minor number, ordered by the major number first. It
is written `51.0`. A user may name it by the major number (`51`) or by the
release it belongs to (`7` or `1.7`); release `n` has the major number `n + 44`,
and majors start at 45.

`Version.parse` takes white space off both ends, allows one leading `+` and
leading zeros, and quotes the text it refuses as it was given.
-/
import Downlevel.Text.Blank

namespace Downlevel

set_option autoImplicit false

structure Version where
  major : UInt16
  minor : UInt16
  deriving DecidableEq

namespace Version

/-- The version of a major number, with minor number 0. -/
def ofMajor (major : UInt16) : Version := ⟨major, 0⟩

/-- The version that output may declare unless told otherwise. -/
def standardTarget : Version := ofMajor 51

/-- A number whose order is the order of versions. -/
def rank (v : Version) : Nat :=
  v.major.toNat * 65536 + v.minor.toNat

def order (a b : Version) : Ordering :=
  compare a.rank b.rank

/-- The earlier of two versions. -/
def earlier (a b : Version) : Version :=
  if b.rank < a.rank then b else a

/-- Whether the constant pool may hold method handles, method types and dynamic call sites. -/
def dynamicLinkage (v : Version) : Bool :=
  51 ≤ v.major.toNat

def text (v : Version) : String :=
  toString v.major.toNat ++ "." ++ toString v.minor.toNat

/-! ## Reading a version -/

/-- The text is neither a major number nor a release. -/
structure Unreadable where
  text : String
  deriving DecidableEq

def Unreadable.message (e : Unreadable) : String :=
  "invalid bytecode version `" ++ e.text ++ "`"

def firstMajor : Nat := 45

def releaseOffset : Nat := 44

/-- The value of a decimal numeral with at least one digit. -/
def numeral? (cs : List Char) : Option Nat :=
  if cs ≠ [] ∧ cs.all Char.isDigit then
    some (cs.foldl (fun n c => n * 10 + (c.toNat - '0'.toNat)) 0)
  else none

/-- A 16-bit number with an optional plus sign. -/
def number? (cs : List Char) : Option Nat :=
  let digits := match cs with
    | '+' :: rest => rest
    | _ => cs
  match numeral? digits with
  | some n => if n < 65536 then some n else none
  | none => none

/-- Whether text is written in the long release form, and the number's own text. -/
def releaseForm : List Char → Bool × List Char
  | '1' :: '.' :: rest => (true, rest)
  | cs => (false, cs)

def parseChars? (cs : List Char) : Option Version :=
  let (release, body) := releaseForm (Blank.trim cs)
  match number? body with
  | none => none
  | some n =>
      if !release && firstMajor ≤ n then some (ofMajor (UInt16.ofNat n))
      else if n = 0 ∨ firstMajor ≤ n then none
      else some (ofMajor (UInt16.ofNat (n + releaseOffset)))

def parse (text : String) : Except Unreadable Version :=
  match parseChars? text.toList with
  | some version => .ok version
  | none => .error ⟨text⟩

end Version

end Downlevel
