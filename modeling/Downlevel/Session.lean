/-
# Downlevel.Session — lowering one class after another

A session numbers the synthesized classes of a run. The first class of a run starts the
numbering anew, also if it fails; later classes go on from there, until the session is
restarted. The numbering may be shared with others, and is then handed over from one
session to the next.
-/
import Downlevel.Outcome

namespace Downlevel

set_option autoImplicit false

structure Session where
  target : Version
  numbering : Numbering
  /-- Whether the numbering was started anew in this run. -/
  started : Bool

namespace Session

/-- A session that has not started its run. -/
def new (target : Version) (numbering : Numbering) : Session :=
  ⟨target, numbering, false⟩

/-- Begins the run, if that has not happened. -/
def begin (session : Session) : Session :=
  if session.started then session
  else { session with numbering := Numbering.fresh, started := true }

def restart (session : Session) : Session :=
  { session with started := false }

def setTarget (session : Session) (target : Version) : Session :=
  { session with target := target }

/-- Draws a number for other uses. -/
def next (session : Session) : UInt32 × Session :=
  let (number, numbering) := session.numbering.next
  (number, { session with numbering := numbering })

/-- Lowers a class to a version. -/
def lower {ω : Type} (session : Session) (around : Surroundings ω) (target : Version)
    (bytes : Bytes) (world : ω) : Outcome ω × Session :=
  let session := session.begin
  let outcome := Downlevel.lower around target bytes session.numbering world
  (outcome, { session with numbering := outcome.numbering })

end Session

end Downlevel
