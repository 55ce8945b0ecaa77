/-
# Downlevel.ClassPath — where classes are looked up

A class path is a row of entries, directories and archives. Looking a class up asks
the entries in order: the first one that has the class answers, and an entry that
fails ends the search. What was found once stays found under its name (`found`),
whatever becomes of the files; what was not found is looked for anew each time.

An entry reads the files as they are at the time of the search. A directory looks
for the file of the class below its base. An archive was opened when it was added
and keeps its table of contents; its bytes are those of the file it opened. It also
keeps where it once found the bytes of a class (`Entry.asked`).

A lookup that gives no class returns an error, with one exception: it breaks down in an
archive that declares more bytes for the class than memory can be asked for (`Halt`).
-/
import Downlevel.Archive.Entry
import Downlevel.FileTree
import Downlevel.Journal

namespace Downlevel

set_option autoImplicit false

/-! ## Classes that were found -/

/-- Where a class came from. -/
inductive Origin where
  | file (path : Path)
  | archive (path : Path) (entry : String)
  deriving DecidableEq

/-- A class as it was found, not yet read. -/
structure ClassHandle where
  name : String
  origin : Origin
  bytes : Bytes
  /-- Counts the finds of one class path, so that two finds of the same bytes differ. -/
  serial : Nat
  deriving DecidableEq

inductive ResolutionError where
  /-- No entry has the class. -/
  | notFound (name : String) (searched : Nat)
  /-- The bytes of the class cannot be read. -/
  | unreadable (name : String) (path : Path)
  /-- The archive gives no access to the class. -/
  | inaccessible (name : String) (path : Path)
  deriving DecidableEq

def ResolutionError.message : ResolutionError → String
  | notFound name searched =>
      "class " ++ name ++ " not found in " ++ toString searched ++ " classpath entries"
  | unreadable name path => "failed to read class " ++ name ++ " from " ++ path.text
  | inaccessible name path => "failed to read class " ++ name ++ " from archive " ++ path.text

/-- How a lookup ends that gives no class. -/
inductive Halt where
  /-- It returns an error. -/
  | failed (e : ResolutionError)
  /-- It breaks down and returns nothing, because memory is asked for too many bytes. -/
  | overflow
  deriving DecidableEq

/-- The name of the file or archive entry that holds a class. -/
def classFileName (name : String) : String := name ++ ".class"

/-! ## Entries -/

namespace ClassPath

inductive Entry where
  | directory (base : Path)
  | archive (path : Path) (file : Nat) (contents : List Archive.Entry)

/-- Why an archive could not become an entry. -/
inductive OpenError where
  | unreadable (path : Path)
  | notArchive (path : Path)
  deriving DecidableEq

def OpenError.message : OpenError → String
  | unreadable path => "cannot open classpath entry " ++ path.text
  | notArchive path => "cannot open classpath archive " ++ path.text

namespace Entry

def location : Entry → Path
  | directory base => base
  | archive path _ _ => path

/-- Opens an archive. -/
def openArchive (tree : FileTree) (path : Path) : Except OpenError Entry :=
  match tree.find path with
  | .error _ => .error (.unreadable path)
  | .ok .directory => .error (.notArchive path)
  | .ok (.file number) =>
      match Archive.directory? (tree.content number) with
      | some contents => .ok (archive path number contents)
      | none => .error (.notArchive path)

/-- Where a class is and its bytes, if the entry has it. -/
def find? (tree : FileTree) (name : String) :
    Entry → Except Halt (Option (Origin × Bytes))
  | directory base =>
      let path := base.join (Path.ofText (classFileName name))
      match tree.read path with
      | .ok bytes => .ok (some (.file path, bytes))
      | .error .missing => .ok none
      | .error .unusable => .error (.failed (.unreadable name path))
  | archive path file contents =>
      match Archive.find? contents (classFileName name) with
      | none => .ok none
      | some entry =>
          match entry.read (tree.content file) with
          | .ok bytes => .ok (some (.archive path (classFileName name), bytes))
          | .error .inaccessible => .error (.failed (.inaccessible name path))
          | .error .damaged => .error (.failed (.unreadable name path))
          | .error .oversized => .error .overflow

/-- The entry after it was asked for a class. -/
def asked (tree : FileTree) (name : String) : Entry → Entry
  | directory base => directory base
  | archive path file contents =>
      archive path file (Archive.located contents (classFileName name) (tree.content file))

end Entry

end ClassPath

/-! ## Class paths -/

structure ClassPath where
  entries : List ClassPath.Entry
  /-- The classes found so far, the latest first. -/
  found : List ClassHandle

namespace ClassPath

def empty : ClassPath := ⟨[], []⟩

def add (path : ClassPath) (entry : Entry) : ClassPath :=
  { path with entries := path.entries ++ [entry] }

def addDirectory (path : ClassPath) (base : Path) : ClassPath :=
  path.add (.directory base)

def addArchive (path : ClassPath) (tree : FileTree) (location : Path) :
    Except OpenError ClassPath := do
  return path.add (← Entry.openArchive tree location)

/-- Takes a location as an archive if it is named like one and is a file, else as a directory;
a location that is neither is passed over, with an event. -/
def addLocation (tree : FileTree) (path : ClassPath) (location : Path) :
    Except OpenError (ClassPath × List Event) :=
  if location.isArchiveName && tree.isFile location then do
    return (← path.addArchive tree location, [])
  else if tree.isDirectory location then
    .ok (path.addDirectory location, [])
  else
    .ok (path, [⟨.debug, "skipping missing classpath entry", [("path", location.text)]⟩])

/-- Adds locations in order; the events of those passed over are kept even if a later location
fails. -/
def addLocations (tree : FileTree) :
    List Path → ClassPath → List Event → Except OpenError ClassPath × List Event
  | [], path, events => (.ok path, events)
  | location :: rest, path, events =>
      match addLocation tree path location with
      | .ok (path, more) => addLocations tree rest path (events ++ more)
      | .error e => (.error e, events)

def ofLocations (tree : FileTree) (locations : List Path) :
    Except OpenError ClassPath × List Event :=
  addLocations tree locations empty []

/-- Asks entries in order, until one has the class or fails. Also gives the entries as they are
after that, where `asked` is what being asked does to an entry. -/
def search {ε α : Type} (look : ε → Except Halt (Option α)) (asked : ε → ε) :
    List ε → Except Halt (Option (ε × α)) × List ε
  | [] => (.ok none, [])
  | entry :: rest =>
      match look entry with
      | .ok (some a) => (.ok (some (entry, a)), asked entry :: rest)
      | .ok none =>
          let (answer, rest) := search look asked rest
          (answer, asked entry :: rest)
      | .error halt => (.error halt, asked entry :: rest)

/-- The class found earlier under a name. -/
def remembered? (path : ClassPath) (name : String) : Option ClassHandle :=
  path.found.find? fun handle => handle.name == name

/-- Looks a class up and remembers it if it is found. -/
def resolve (path : ClassPath) (tree : FileTree) (name : String) :
    Except Halt ClassHandle × List Event × ClassPath :=
  match path.remembered? name with
  | some handle => (.ok handle, [], path)
  | none =>
      match search (Entry.find? tree name) (Entry.asked tree name) path.entries with
      | (.ok (some (entry, origin, bytes)), entries) =>
          let handle := ClassHandle.mk name origin bytes path.found.length
          (.ok handle,
            [⟨.trace, "resolved", [("class", name), ("entry", entry.location.text)]⟩],
            ⟨entries, handle :: path.found⟩)
      | (.ok none, entries) =>
          (.error (.failed (.notFound name path.entries.length)), [], ⟨entries, path.found⟩)
      | (.error halt, entries) => (.error halt, [], ⟨entries, path.found⟩)

end ClassPath

end Downlevel
