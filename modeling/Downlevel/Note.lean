/-
# Downlevel.Note — what is said along the way

Lowering a class leaves notes: events of the journal and diagnostics, in the order in
which they came up. `Noted` is a computation that writes notes; those it has written
stay when it fails.
-/
import Downlevel.Diagnostic
import Downlevel.Malformed

namespace Downlevel

set_option autoImplicit false

inductive Note where
  | event (e : Event)
  | finding (d : Diagnostic)
  deriving DecidableEq

namespace Note

/-- What a note adds to the journal; a diagnostic does if the journal is its sink. -/
def journaled? (sink : Diagnostic.Sink) : Note → Option Event
  | event e => some e
  | finding d => if sink = .journal then some d.event else none

def diagnostic? : Note → Option Diagnostic
  | event _ => none
  | finding d => some d

end Note

/-- A computation that writes notes and may find the class file malformed. -/
abbrev Noted (α : Type) : Type := ExceptT Malformed (StateM (Array Note)) α

namespace Noted

def write (note : Note) : Noted Unit :=
  modify (·.push note)

def emit (level : Level) (message : String) (fields : List (String × String)) : Noted Unit :=
  write (.event ⟨level, message, fields⟩)

def report (d : Diagnostic) : Noted Unit :=
  write (.finding d)

/-- The notes that a fault leaves. -/
def ofFault (e : Malformed) : Array Note :=
  (e.event?.map Note.event).toArray

/-- Goes on with a result; a fault leaves its event. -/
def check {α : Type} : Except Malformed α → Noted α
  | .ok a => pure a
  | .error e => do
      modify (· ++ ofFault e)
      throw e

end Noted

end Downlevel
