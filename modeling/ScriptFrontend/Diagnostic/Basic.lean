import ScriptFrontend.Diagnostic.Classification
import ScriptFrontend.Diagnostic.Excerpt
import ScriptFrontend.Text.Template

/-!
# Diagnostics

A diagnostic is a failure together with all that is needed to report it: the source text, the path
of the source file, the settings, and the code, which is found once, when the diagnostic is made.
-/

namespace ScriptFrontend

/-- A failure that is ready to be reported. -/
structure Diagnostic where
  failure : Failure
  source : String
  path : Option String
  settings : Settings
  code : Code

namespace Diagnostic

open Text

/-- The settings of a diagnostic that has been given none. -/
def initialSettings : Settings := .ofVariables fun _ => false

/-- A failure in a source text, classified by the given guesses. -/
def ofFailure (intent : Intent) (source : String) (failure : Failure) : Diagnostic :=
  ⟨failure, source, none, initialSettings, failure.classify intent source⟩

/-- A diagnostic that is nothing but its message. -/
def ofMessage (text : String) : Diagnostic := ofFailure .byText "" (.message text)

def internalMessage (text : String) : String :=
  "Internal error occurred: " ++ text ++ "\nPlease report this as a bug."

def withPath (d : Diagnostic) (path : String) : Diagnostic := { d with path := some path }

def withSettings (d : Diagnostic) (settings : Settings) : Diagnostic := { d with settings }

def name (d : Diagnostic) (t : Terminal) : String :=
  match d.path with
  | none => "story"
  | some path => d.settings.shownPath t path

/-- The source line of the failure, empty if it has no place in the source. -/
def line (d : Diagnostic) : String :=
  match d.failure.location? with
  | none => ""
  | some location => lineOf d.source location.line

/-- The character that a failure points at, or nothing. -/
def character (d : Diagnostic) : String :=
  match d.failure.location?.bind fun location => charAt? d.line location.column with
  | none => ""
  | some c => c.toString

/-- The hint to the user. The two codes whose hints need data of one kind of failure fall back on
their title when the failure is of another kind. -/
def hint (d : Diagnostic) : String :=
  match d.code, d.failure with
  | .unidentified, failure => failure.text
  | .invalidCharacter, _ => fill [("character", d.character)] d.code.hintTemplate
  | .unexpectedToken, .unexpectedToken _ token expected =>
    fill [("token", token), ("allowed", ", ".intercalate expected)] d.code.hintTemplate
  | .functionRedeclared, .pass ⟨.functionRedeclared name previous, _⟩ =>
    fill [("name", name), ("line", previous.dotted)] d.code.hintTemplate
  | .unexpectedToken, _ => d.code.title
  | .functionRedeclared, _ => d.code.title
  | _, _ => d.code.hintTemplate

/-- The full report; a failure that has no place in the source is its own report. -/
def message (d : Diagnostic) (t : Terminal) : String :=
  match d.failure.location? with
  | none => d.failure.text
  | some location =>
    Excerpt.report ⟨d.source, d.name t, d.settings.usesColour t⟩ t location d.code.number d.hint

def shortMessage (d : Diagnostic) : String := d.code.number ++ ": " ++ d.hint

def printed (d : Diagnostic) (t : Terminal) : String := d.message t ++ "\n"

end Diagnostic

end ScriptFrontend
