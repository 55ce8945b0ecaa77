/-
# Downlevel.Proofs.ClassPath.Entries — what the answer of an entry depends on

What an entry answers about a class depends on the files and, in an archive, on the one entry
that counts for the class. Two class path entries that have it in common agree about the class
(`Entry.Agrees`). Being asked for another class does not touch it.

Being asked for the class itself does, in one respect: from then on the archive knows where the
stored bytes start. That makes no difference as long as they would be found to start there
anyway (`Entry.KeepsStart`).

An entry breaks a lookup down exactly if it is an archive that gives access to the class and
declares more bytes for it than memory can be asked for (`Entry.find?_eq_overflow`).
-/
import Downlevel.ClassPath
import Downlevel.Proofs.Sequencing

namespace Downlevel

set_option autoImplicit false

/-! ## Entries of an archive -/

namespace Archive

namespace Entry

/-- How an entry is read depends on its own start no further than on where it is found to
start. -/
theorem read_of_start {entry : Entry} {start : Option Nat} {file : Bytes}
    (same : { entry with start := start }.start? file = entry.start? file) :
    { entry with start := start }.read file = entry.read file := by
  unfold read
  rw [same]
  rfl

/-- The entry can be told to be stored, and its stored bytes can be found. -/
def Accessible (entry : Entry) (file : Bytes) : Prop :=
  entry.encrypted = false ∧ entry.methodKnown = true ∧ (entry.start? file).isSome = true

/-- Whether an entry is oversized shows once there is access to it, before any of its bytes is
read. -/
theorem read_eq_oversized {entry : Entry} {file : Bytes} :
    entry.read file = .error .oversized ↔ entry.Accessible file ∧ memoryLimit < entry.size := by
  have ended (stored : Bytes) : entry.contents stored ≠ .error .oversized := by
    unfold contents
    split
    · split <;> simp
    · simp
  unfold read Accessible
  cases entry.encrypted with
  | true => simp
  | false =>
      cases entry.methodKnown with
      | false => simp
      | true =>
          cases entry.start? file with
          | none => simp
          | some start =>
              by_cases large : memoryLimit < entry.size
              · simp [large]
              · simp [large, ended]

/-- An entry that cannot be located stays as it is. -/
theorem located_of_none {entry : Entry} {file : Bytes} (missing : entry.start? file = none) :
    entry.located file = entry := by
  have unknown : entry.start = none := by
    unfold start? at missing
    split at missing
    · cases missing
    · assumption
  unfold located
  rw [missing, ← unknown]

theorem start?_located {entry : Entry} {file later : Bytes} {p : Nat}
    (found : entry.start? file = some p) : (entry.located file).start? later = some p := by
  unfold located
  rw [found]
  rfl

/-- An entry is located once: where it is found the first time. -/
theorem located_again (entry : Entry) (file later : Bytes) :
    (entry.located file).located later = entry.located file ∨
      (entry.located file).located later = entry.located later := by
  cases found : entry.start? file with
  | none => exact .inr (by rw [located_of_none found])
  | some p =>
      refine .inl ?_
      rw [located, start?_located found, ← found]
      rfl

section Stays

variable {entry : Entry} {file later : Bytes}
  (stays : ∀ p, entry.start? file = some p → entry.start? later = some p)
include stays

/-- An entry that was located is found where it would be anyway. -/
theorem start?_located_of_stays : (entry.located file).start? later = entry.start? later := by
  cases found : entry.start? file with
  | none => rw [located_of_none found]
  | some p => rw [start?_located found, stays p found]

theorem located_located : (entry.located file).located later = entry.located later := by
  rw [located, start?_located_of_stays stays]
  rfl

theorem read_located : (entry.located file).read later = entry.read later :=
  read_of_start (start?_located_of_stays stays)

end Stays

end Entry

/-- Reading an entry of an archive locates the entry that counts for its name, and no other. -/
theorem find?_located (contents : List Entry) (name other : String) (file : Bytes) :
    find? (located contents name file) other =
      if other = name then (find? contents name).map (Entry.located · file)
      else find? contents other := by
  have sameName : ((fun entry : Entry => entry.name == other) ∘
      fun entry => if entry.name == name then entry.located file else entry) =
      fun entry => entry.name == other := by
    funext entry
    rw [Function.comp]
    split <;> rfl
  unfold find? located
  rw [← List.map_reverse, List.find?_map, sameName]
  cases found : contents.reverse.find? fun entry => entry.name == other with
  | none =>
      by_cases equal : other = name
      · rw [if_pos equal, ← equal, found]
        rfl
      · rw [if_neg equal]
        rfl
  | some entry =>
      have named := List.find?_some found
      simp only [beq_iff_eq] at named
      by_cases equal : other = name
      · rw [if_pos equal, ← equal, found, Option.map_some, Option.map_some, named,
          if_pos (beq_self_eq_true other)]
      · rw [if_neg equal, Option.map_some, named, if_neg fun same => equal (beq_iff_eq.mp same)]

end Archive

theorem classFileName_inj {name other : String} (same : classFileName other = classFileName name) :
    other = name := by
  have chars := congrArg String.toList same
  rw [classFileName, classFileName, String.toList_append, String.toList_append] at chars
  exact String.toList_inj.mp (List.append_cancel_right chars)

/-! ## Entries of a class path -/

namespace ClassPath.Entry

/-- The entry after lookups of classes, each among the files of its time. Where the bytes of a
class start is all that an archive may recall, and it recalls it from a lookup of that class. -/
inductive Recalls (lookups : List (String × FileTree)) : Entry → Entry → Prop where
  | directory (base : Path) : Recalls lookups (directory base) (directory base)
  | archive {path : Path} {file : Nat} {contents contents' : List Archive.Entry}
      (each : List.Forall₂ (fun entry entry' => entry' = entry ∨ ∃ name files,
        (name, files) ∈ lookups ∧ entry.name = classFileName name ∧
          entry' = entry.located (files.content file)) contents contents') :
      Recalls lookups (archive path file contents) (archive path file contents')

namespace Recalls

theorem refl (lookups : List (String × FileTree)) (e : Entry) : Recalls lookups e e := by
  cases e with
  | directory base => exact .directory base
  | archive => exact .archive (List.forall₂_same.mpr fun entry _ => .inl rfl)

variable {lookups : List (String × FileTree)} {e e' : Entry} (recalls : Recalls lookups e e')
include recalls

theorem mono {more : List (String × FileTree)} (subset : ∀ lookup ∈ lookups, lookup ∈ more) :
    Recalls more e e' := by
  cases recalls with
  | directory base => exact .directory base
  | archive each =>
      refine .archive (each.imp fun entry entry' recalled => recalled.imp_right ?_)
      rintro ⟨name, files, member, named, located⟩
      exact ⟨name, files, subset _ member, named, located⟩

/-- Being asked is one lookup more. -/
theorem asked (tree : FileTree) (name : String) :
    Recalls (lookups ++ [(name, tree)]) e (e'.asked tree name) := by
  have last : (name, tree) ∈ lookups ++ [(name, tree)] := by simp
  have longer := recalls.mono fun lookup member => List.mem_append_left [(name, tree)] member
  cases longer with
  | directory base => exact .directory base
  | @archive path file contents contents' each =>
      refine .archive (List.forall₂_map_right_iff.mpr (each.imp fun entry entry' recalled => ?_))
      split
      · rename_i named
        rw [beq_iff_eq] at named
        rcases recalled with rfl | ⟨old, files, member, sameName, rfl⟩
        · exact .inr ⟨name, tree, last, named, rfl⟩
        · -- Located for the second time: it counts where it was found first.
          rcases entry.located_again (files.content file) (tree.content file) with same | same
          · exact .inr ⟨old, files, member, sameName, same⟩
          · exact .inr ⟨name, tree, last, named, same⟩
      · exact recalled

end Recalls

/-- An entry never says that the class is nowhere. -/
theorem find?_ne_notFound {tree : FileTree} {name : String} {entry : Entry} {e : ResolutionError}
    (failed : entry.find? tree name = .error (.failed e)) (asked : String) (searched : Nat) :
    e ≠ .notFound asked searched := by
  rintro rfl
  cases entry with
  | directory base =>
      simp only [find?] at failed
      split at failed <;> cases failed
  | archive path file contents =>
      simp only [find?] at failed
      split at failed
      · cases failed
      · split at failed <;> cases failed

/-- The archive gives access to the class, and declares more bytes for it than memory can be
asked for. -/
def Oversized (tree : FileTree) (name : String) : Entry → Prop
  | directory _ => False
  | archive _ file contents => ∃ entry, Archive.find? contents (classFileName name) = some entry ∧
      entry.Accessible (tree.content file) ∧ Archive.memoryLimit < entry.size

theorem find?_eq_overflow {tree : FileTree} {name : String} {e : Entry} :
    e.find? tree name = .error .overflow ↔ e.Oversized tree name := by
  cases e with
  | directory base =>
      simp only [find?, Oversized, iff_false]
      split <;> simp
  | archive path file contents =>
      simp only [find?, Oversized, ← Archive.Entry.read_eq_oversized]
      cases found : Archive.find? contents (classFileName name) with
      | none => simp
      | some entry =>
          simp only [Option.some.injEq, exists_eq_left']
          rcases entry.read (tree.content file) with (_ | _ | _) | bytes <;> simp

/-- An archive of 125 bytes that declares 2⁶³ bytes for a class. -/
example :
    let bytes : Bytes := [80, 75, 3, 4, 20, 0, 0, 0, 0, 0, 0, 0, 33, 0, 27, 223, 5, 165, 1, 0, 0, 0,
      1, 0, 0, 0, 7, 0, 0, 0, 65, 46, 99, 108, 97, 115, 115, 1, 80, 75, 1, 2, 20, 0, 20, 0, 0, 0, 0,
      0, 0, 0, 33, 0, 27, 223, 5, 165, 1, 0, 0, 0, 255, 255, 255, 255, 7, 0, 12, 0, 0, 0, 0, 0, 0,
      0, 0, 0, 0, 0, 0, 0, 0, 0, 65, 46, 99, 108, 97, 115, 115, 1, 0, 8, 0, 0, 0, 0, 0, 0, 0, 0, 128,
      80, 75, 5, 6, 0, 0, 0, 0, 1, 0, 1, 0, 65, 0, 0, 0, 38, 0, 0, 0, 0, 0]
    let tree := FileTree.empty.write (Path.ofText "j.jar") bytes
    (openArchive tree (Path.ofText "j.jar")).map (find? tree "A") = .ok (.error .overflow) := by
  decide +kernel

/-- The two entries answer the same about the class, whatever becomes of the files. -/
inductive Agrees (name : String) : Entry → Entry → Prop where
  | directory (base : Path) : Agrees name (directory base) (directory base)
  | archive {path : Path} {file : Nat} {contents contents' : List Archive.Entry}
      (same : Archive.find? contents (classFileName name) =
        Archive.find? contents' (classFileName name)) :
      Agrees name (archive path file contents) (archive path file contents')

namespace Agrees

variable {name : String} {e e' : Entry}

theorem refl (name : String) (e : Entry) : Agrees name e e := by
  cases e with
  | directory base => exact .directory base
  | archive => exact .archive rfl

theorem symm (agrees : Agrees name e e') : Agrees name e' e := by
  cases agrees with
  | directory base => exact .directory base
  | archive same => exact .archive same.symm

theorem trans {e'' : Entry} (agrees : Agrees name e e') (more : Agrees name e' e'') :
    Agrees name e e'' := by
  cases agrees with
  | directory base => exact more
  | archive same =>
      cases more with
      | archive next => exact .archive (same.trans next)

theorem find?_eq (agrees : Agrees name e e') (tree : FileTree) :
    e.find? tree name = e'.find? tree name := by
  cases agrees with
  | directory base => rfl
  | archive same =>
      simp only [find?]
      rw [same]

/-- Entries that agree go on agreeing if both are asked the same. -/
theorem asked (agrees : Agrees name e e') (tree : FileTree) (other : String) :
    Agrees name (e.asked tree other) (e'.asked tree other) := by
  cases agrees with
  | directory base => exact .directory base
  | archive same =>
      refine .archive ?_
      rw [Archive.find?_located, Archive.find?_located]
      by_cases equal : classFileName name = classFileName other
      · rw [if_pos equal, if_pos equal, ← equal, same]
      · rw [if_neg equal, if_neg equal, same]

/-- Being asked for another class makes no difference. -/
theorem asked_other {other : String} (differs : other ≠ name) (e : Entry) (tree : FileTree) :
    Agrees name e (e.asked tree other) := by
  cases e with
  | directory base => exact .directory base
  | archive path file contents =>
      refine .archive ?_
      rw [Archive.find?_located, if_neg fun same => differs (classFileName_inj same).symm]

end Agrees

/-- If the entry finds out from the files of `tree` where the bytes of the class start, they
start there among the files of `later` as well. -/
def KeepsStart (name : String) (tree later : FileTree) (e : Entry) : Prop :=
  ∀ path file contents entry p, e = archive path file contents →
    Archive.find? contents (classFileName name) = some entry →
    entry.start? (tree.content file) = some p → entry.start? (later.content file) = some p

namespace KeepsStart

variable {name : String} {tree later : FileTree} {e : Entry}

/-- Having been asked makes no difference to the answer then. -/
theorem find?_asked (keeps : KeepsStart name tree later e) :
    (e.asked tree name).find? later name = e.find? later name := by
  cases e with
  | directory base => rfl
  | archive path file contents =>
      simp only [Entry.asked, find?]
      rw [Archive.find?_located, if_pos rfl]
      cases found : Archive.find? contents (classFileName name) with
      | none => rfl
      | some entry =>
          have same := Archive.Entry.read_located fun p =>
            keeps path file contents entry p rfl found
          simp only [Option.map_some, same]

/-- Nor does it to what the entry knows once it is asked again. -/
theorem asked_asked (keeps : KeepsStart name tree later e) :
    Agrees name (e.asked later name) ((e.asked tree name).asked later name) := by
  cases e with
  | directory base => exact .directory base
  | archive path file contents =>
      refine .archive ?_
      rw [Archive.find?_located, Archive.find?_located, Archive.find?_located, if_pos rfl,
        if_pos rfl, if_pos rfl, Option.map_map]
      refine Option.map_congr fun entry found => ?_
      exact (Archive.Entry.located_located fun p => keeps path file contents entry p rfl found).symm

end KeepsStart

end ClassPath.Entry

end Downlevel
