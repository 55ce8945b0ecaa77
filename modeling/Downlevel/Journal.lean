/-
# Downlevel.Journal — events

The library prints nothing. What it has to say about its own work it hands back
as events: a level, a message and named fields in a fixed order. `Event.text` is
the one-line form.
-/

namespace Downlevel

set_option autoImplicit false

inductive Level where
  | trace
  | debug
  | warn
  deriving DecidableEq

def Level.text : Level → String
  | .trace => "TRACE"
  | .debug => "DEBUG"
  | .warn => "WARN"

structure Event where
  level : Level
  message : String
  fields : List (String × String)
  deriving DecidableEq

namespace Event

/-- A field as it stands in a line. -/
def fieldText (field : String × String) : String :=
  " " ++ field.1 ++ "=" ++ field.2

def text (event : Event) : String :=
  event.level.text ++ " " ++ event.message ++ String.join (event.fields.map fieldText)

end Event

end Downlevel
