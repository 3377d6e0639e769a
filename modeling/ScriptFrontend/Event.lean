/-!
# Events

What a run leaves in its log: derived lines and classified failures, each as a message with named
text fields.
-/

namespace ScriptFrontend

/-- How much detail a log has to ask for to show an event. -/
inductive Level
  | debug
  | trace
deriving DecidableEq

def Level.name : Level → String
  | .debug => "DEBUG"
  | .trace => "TRACE"

/-- An entry of the log. -/
structure Event where
  level : Level
  message : String
  fields : List (String × String)
deriving DecidableEq

end ScriptFrontend
