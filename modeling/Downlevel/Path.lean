/-
# Downlevel.Path — paths of files

A path is a byte string in which slashes divide components. Joining keeps the text
as it is, so `a/` and `.` stay visible; comparing goes by components, so that
doubled and trailing slashes and inner dots do not matter.
-/
import Downlevel.Text.Lenient

namespace Downlevel

set_option autoImplicit false

structure Path where
  bytes : Bytes
  deriving DecidableEq

namespace Path

def slash : UInt8 := 0x2F

def dot : UInt8 := 0x2E

def ofText (text : String) : Path :=
  ⟨text.toUTF8.toList⟩

/-- The path as text, with replacement characters where it is not UTF-8. -/
def text (path : Path) : String :=
  Lenient.text path.bytes

/-- Whether the path starts at the root. -/
def isAbsolute (path : Path) : Bool :=
  path.bytes.head? == some slash

/-- The other path, seen from this one; an absolute path stands for itself. -/
def join (base other : Path) : Path :=
  if other.isAbsolute then other
  else
    match base.bytes.getLast? with
    | none => other
    | some last =>
        if last == slash then ⟨base.bytes ++ other.bytes⟩
        else ⟨base.bytes ++ (slash :: other.bytes)⟩

/-- The pieces between slashes, empty ones included. -/
def pieces (path : Path) : List Bytes :=
  path.bytes.splitOn slash

/-! ## Components -/

inductive Component where
  | root
  | here
  | parent
  | name (bytes : Bytes)
  deriving DecidableEq

def Component.ofPiece? (piece : Bytes) : Option Component :=
  if piece = [] ∨ piece = [dot] then none
  else if piece = [dot, dot] then some .parent
  else some (.name piece)

/-- The components of a path: a dot counts only at the front of a relative path. -/
def components (path : Path) : List Component :=
  let named := path.pieces.filterMap Component.ofPiece?
  if path.isAbsolute then .root :: named
  else
    match path.pieces with
    | first :: _ => if first = [dot] then .here :: named else named
    | [] => named

/-- Whether two paths have the same components. -/
def same (a b : Path) : Bool :=
  a.components == b.components

/-- The last component, if it is a name. -/
def fileName? (path : Path) : Option Bytes :=
  match path.components.getLast? with
  | some (.name bytes) => some bytes
  | _ => none

/-- What follows the last dot of the file name, unless the name starts with it. -/
def extension? (path : Path) : Option Bytes :=
  match path.fileName? with
  | none => none
  | some name =>
      let after := (name.reverse.takeWhile (· != dot)).reverse
      let before := name.length - after.length
      if before ≤ 1 then none else some after

/-- A letter of ASCII in lower case. -/
def lower (b : UInt8) : UInt8 :=
  if 0x41 ≤ b.toNat ∧ b.toNat ≤ 0x5A then b + 0x20 else b

/-- Whether the path is named like an archive: `jar` or `zip`, in any case. -/
def isArchiveName (path : Path) : Bool :=
  match path.extension? with
  | none => false
  | some extension =>
      let folded := extension.map lower
      folded == (ofText "jar").bytes || folded == (ofText "zip").bytes

end Path

end Downlevel
