/-
# Downlevel.Diagnostic — findings that do not stop the work

A diagnostic is reported to a sink: a collection that can be looked at, a channel
that can be emptied until its receiver hangs up, or the journal. Reporting never
fails and never changes any output.
-/
import Downlevel.Journal

namespace Downlevel

set_option autoImplicit false

inductive Diagnostic where
  /-- The numbering of synthesized classes could not be started anew. -/
  | sequenceResetUnavailable (reason : String)
  /-- A method with a body stands in an interface. -/
  | nonAbstractInterfaceMethod (owner method : String)
  deriving DecidableEq

namespace Diagnostic

def kind : Diagnostic → String
  | sequenceResetUnavailable _ => "SequenceResetUnavailable"
  | nonAbstractInterfaceMethod _ _ => "NonAbstractInterfaceMethod"

def text : Diagnostic → String
  | sequenceResetUnavailable reason =>
      "could not reset the lambda name sequence (" ++ reason ++
        "); synthesized class names may not start from 1"
  | nonAbstractInterfaceMethod owner method =>
      "non-abstract method " ++ method ++ " on interface " ++ owner ++ " is not supported"

/-- The journal's event for a diagnostic. -/
def event (d : Diagnostic) : Event :=
  ⟨.warn, d.text, []⟩

/-! ## Sinks -/

inductive Sink where
  | collect
  | channel
  | journal
  deriving DecidableEq

/-- What has been reported and not yet fetched. -/
structure Outbox where
  collected : List Diagnostic
  /-- `none` once the receiver has hung up. -/
  channel : Option (List Diagnostic)
  events : List Event

namespace Outbox

def empty : Outbox := ⟨[], some [], []⟩

def report (box : Outbox) (d : Diagnostic) : Sink → Outbox
  | .collect => { box with collected := box.collected ++ [d] }
  | .channel => { box with channel := box.channel.map (· ++ [d]) }
  | .journal => { box with events := box.events ++ [d.event] }

/-- Everything collected, which is then forgotten. -/
def take (box : Outbox) : List Diagnostic × Outbox :=
  (box.collected, { box with collected := [] })

/-- Everything in the channel, which is then empty. -/
def receive (box : Outbox) : Option (List Diagnostic) × Outbox :=
  (box.channel, { box with channel := box.channel.map fun _ => [] })

def hangUp (box : Outbox) : Outbox :=
  { box with channel := none }

end Outbox

end Diagnostic

end Downlevel
