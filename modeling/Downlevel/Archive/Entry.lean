/-
# Downlevel.Archive.Entry — reading an entry of an archive

An entry is stored as it is or deflated, and carries the checksum of its contents. Where
its stored bytes start is read off its local header when the entry is first read, and is
known from then on. An entry that cannot be read leaves the other entries readable. Of
several entries with one name the last one counts.

Before the contents are read, memory is asked for as many bytes as they are declared to
have. It takes no request for more than `memoryLimit` bytes. Up to that limit it is taken to
have room.
-/
import Downlevel.Archive.Directory
import Downlevel.Archive.Inflate

namespace Downlevel.Archive

set_option autoImplicit false

/-- Why an entry could not be read. -/
inductive ReadFailure where
  /-- The entry is encrypted, is stored by an unknown method or has no local header. -/
  | inaccessible
  /-- The stored bytes do not give the contents. -/
  | damaged
  /-- The contents are declared to have more bytes than memory can be asked for. -/
  | oversized
  deriving DecidableEq

/-- The most bytes that memory can be asked for at once: a size is a signed number of 64 bits. -/
def memoryLimit : Nat := 9223372036854775807

/-- Methods of compression that are known by number, but not how to undo them. -/
def foreignMethods : List Nat := [9, 12, 14, 93, 95, 98]

namespace Entry

/-- Where the stored bytes of the entry start. -/
def start? (entry : Entry) (file : Bytes) : Option Nat :=
  match entry.start with
  | some start => some start
  | none => dataStart file.toArray entry.header

/-- The entry, knowing where its stored bytes start if that can be found out. -/
def located (entry : Entry) (file : Bytes) : Entry :=
  { entry with start := entry.start? file }

/-- The bytes that are stored for the entry, as far as the file has them. -/
def storedBytes (entry : Entry) (start : Nat) (file : Bytes) : Bytes :=
  (file.drop start).take entry.storedSize

/-- Whether the method of compression is known, at least by its number. -/
def methodKnown (entry : Entry) : Bool :=
  entry.method = 0 ∨ entry.method = 8 ∨ entry.method ∈ foreignMethods

/-- The contents that stored bytes stand for. -/
def unpack? (entry : Entry) (stored : Bytes) : Option Bytes :=
  if entry.method = 0 then some stored
  else if entry.method = 8 then Inflate.inflate stored
  else none

/-- The contents that stored bytes stand for, if the checksum agrees. -/
def contents (entry : Entry) (stored : Bytes) : Except ReadFailure Bytes :=
  match entry.unpack? stored with
  | some bytes => if Checksum.crc32 bytes == entry.checksum then .ok bytes else .error .damaged
  | none => .error .damaged

/-- The contents of an entry of the given file. -/
def read (entry : Entry) (file : Bytes) : Except ReadFailure Bytes :=
  if entry.encrypted || !entry.methodKnown then .error .inaccessible
  else
    match entry.start? file with
    | none => .error .inaccessible
    | some start =>
        if memoryLimit < entry.size then .error .oversized
        else entry.contents (entry.storedBytes start file)

end Entry

/-- The last entry of that name. -/
def find? (entries : List Entry) (name : String) : Option Entry :=
  entries.reverse.find? fun entry => entry.name == name

/-- The entries after one of that name was read. -/
def located (entries : List Entry) (name : String) (file : Bytes) : List Entry :=
  entries.map fun entry => if entry.name == name then entry.located file else entry

end Downlevel.Archive
