/-
# Downlevel.FileTree — files and directories below a working directory

A file tree maps the places below one working directory to directories and files.
A file is named by a number and its contents are kept apart: writing to a file that
exists changes the contents under the same number, so whoever has opened the file
sees the change; removing a file takes its place away, not its contents.

`find` walks a path piece by piece. Every name must be found in a directory; what
lies outside the working directory is taken to be empty. Of the ways in which a walk
can fail, only a missing name counts as `missing`: a NUL byte, a path or a name that
is too long, and a file where a directory is needed are `unusable`.
-/
import Downlevel.Path

namespace Downlevel

set_option autoImplicit false

/-- What stands at a place; files are numbered. -/
inductive Node where
  | directory
  | file (number : Nat)
  deriving DecidableEq

/-- Why nothing was found. -/
inductive Absence where
  | missing
  | unusable
  deriving DecidableEq

/-- A place: the names that lead to it, the last one first. -/
abbrev Place := List Bytes

structure FileTree where
  nodes : List (Place × Node)
  contents : Array Bytes

namespace FileTree

def empty : FileTree := ⟨[], #[]⟩

/-- What stands at a place; the working directory is the empty place. -/
def node? (tree : FileTree) (place : Place) : Option Node :=
  if place = [] then some .directory
  else (tree.nodes.find? fun entry => entry.1 == place).map Prod.snd

/-! ## Walking -/

/-- How far a walk has come. -/
inductive Stand where
  | inside (place : Place)
  | outside
  | atFile (number : Nat)
  deriving DecidableEq

/-- The length of the longest name. -/
def longestName : Nat := 255

/-- The length of the shortest path that is too long. -/
def pathLimit : Nat := 4096

def step (tree : FileTree) (stand : Stand) (piece : Bytes) : Except Absence Stand :=
  match stand with
  | .atFile _ => .error .unusable
  | .outside =>
      if piece = [] ∨ piece = [Path.dot] ∨ piece = [Path.dot, Path.dot] then .ok .outside
      else if longestName < piece.length then .error .unusable
      else .error .missing
  | .inside place =>
      if piece = [] ∨ piece = [Path.dot] then .ok (.inside place)
      else if piece = [Path.dot, Path.dot] then
        match place with
        | [] => .ok .outside
        | _ :: above => .ok (.inside above)
      else if longestName < piece.length then .error .unusable
      else
        match tree.node? (piece :: place) with
        | none => .error .missing
        | some .directory => .ok (.inside (piece :: place))
        | some (.file number) => .ok (.atFile number)

def find (tree : FileTree) (path : Path) : Except Absence Node :=
  if path.bytes.contains 0 then .error .unusable
  else if path.bytes = [] then .error .missing
  else if pathLimit ≤ path.bytes.length then .error .unusable
  else
    let start := if path.isAbsolute then Stand.outside else Stand.inside []
    match path.pieces.foldlM (step tree) start with
    | .ok (.atFile number) => .ok (.file number)
    | .ok _ => .ok .directory
    | .error absence => .error absence

def isFile (tree : FileTree) (path : Path) : Bool :=
  match tree.find path with
  | .ok (.file _) => true
  | _ => false

def isDirectory (tree : FileTree) (path : Path) : Bool :=
  match tree.find path with
  | .ok .directory => true
  | _ => false

/-- The present contents of a file. -/
def content (tree : FileTree) (number : Nat) : Bytes :=
  tree.contents.getD number []

def read (tree : FileTree) (path : Path) : Except Absence Bytes :=
  match tree.find path with
  | .ok (.file number) => .ok (tree.content number)
  | .ok .directory => .error .unusable
  | .error absence => .error absence

/-! ## Changing -/

/-- The place that a relative path names, whether or not anything stands there. -/
def placeOf (path : Path) : Place :=
  path.components.foldl
    (fun place component =>
      match component with
      | .name bytes => bytes :: place
      | .parent => place.tail
      | .here => place
      | .root => [])
    []

/-- Makes the directories that lead to a place, itself included. -/
def makePlace (tree : FileTree) : Place → FileTree
  | [] => tree
  | name :: above =>
      let tree := tree.makePlace above
      match tree.node? (name :: above) with
      | some _ => tree
      | none => { tree with nodes := (name :: above, .directory) :: tree.nodes }

def makeDirectory (tree : FileTree) (path : Path) : FileTree :=
  tree.makePlace (placeOf path)

/-- Writes a file, after making the directories above it. -/
def write (tree : FileTree) (path : Path) (bytes : Bytes) : FileTree :=
  match placeOf path with
  | [] => tree
  | name :: above =>
      let tree := tree.makePlace above
      match tree.node? (name :: above) with
      | some (.file number) =>
          { tree with contents := tree.contents.setIfInBounds number bytes }
      | some .directory => tree
      | none =>
          { nodes := (name :: above, .file tree.contents.size) :: tree.nodes
            contents := tree.contents.push bytes }

/-- Removes what a path names, and everything below it. -/
def remove (tree : FileTree) (path : Path) : FileTree :=
  let place := placeOf path
  { tree with nodes := tree.nodes.filter fun entry => !place.isSuffixOf entry.1 }

end FileTree

end Downlevel
