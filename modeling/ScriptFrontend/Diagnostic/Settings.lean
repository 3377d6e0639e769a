import ScriptFrontend.SourcePath

/-!
# How reports are rendered

A report is rendered by its own settings on a terminal. The settings choose whether it has colour
and which directory file names are relative to. The terminal has a switch of its own: styles come
out only while it is on, and settings that leave the choice of colour open follow it. What holds
until the switch is set depends on the environment and the device, and what a styled text looks like
depends on the terminal; both are left open here.
-/

namespace ScriptFrontend

/-- Whether reports have colour; `auto` leaves it to the terminal. -/
inductive ColourChoice
  | auto
  | always
  | never
deriving DecidableEq

def ColourChoice.name : ColourChoice → String
  | .auto => "auto"
  | .always => "always"
  | .never => "never"

/-- The styles that parts of a report are put in. -/
inductive Style
  | bold
  | red
deriving DecidableEq

/-- The surroundings that a report is rendered in. -/
structure Terminal where
  /-- Whether styles come out, if that has been settled. -/
  switch : Option Bool
  /-- Whether styles come out where nothing has been settled. -/
  supportsStyles : Bool
  /-- What a text in a style looks like. -/
  paint : Style → String → String
  /-- The working directory, if it can be found out. -/
  workingDirectory : Option String

namespace Terminal

/-- A terminal without styles that nothing has been settled for, at the root directory. -/
def initial : Terminal := ⟨none, false, fun _ text => text, some "/"⟩

def emitsStyles (t : Terminal) : Bool := t.switch.getD t.supportsStyles

/-- A text in a style, where styles come out. -/
def styled (t : Terminal) (style : Style) (text : String) : String :=
  if t.emitsStyles then t.paint style text else text

end Terminal

structure Settings where
  colour : ColourChoice
  /-- The directory that file names are relative to, if it is not the working directory. -/
  directory : Option String
deriving DecidableEq

namespace Settings

/-- No colour, and paths relative to the working directory. -/
def plain : Settings := ⟨.never, none⟩

/-- The settings that a process starts with, from the environment variables that are set there. A
variable counts whatever its value is, and the one against colour wins. -/
def ofVariables (isSet : String → Bool) : Settings :=
  ⟨if isSet "NO_COLOR" then .never else if isSet "FORCE_COLOR" then .always else .auto, none⟩

def usesColour (s : Settings) (t : Terminal) : Bool :=
  match s.colour with
  | .always => true
  | .never => false
  | .auto => t.emitsStyles

/-- The terminal after the choice of colour has been settled on it. -/
def apply (s : Settings) (t : Terminal) : Terminal :=
  match s.colour with
  | .always => { t with switch := some true }
  | .never => { t with switch := some false }
  | .auto => { t with switch := none }

/-- How the path of a source file is shown: in full where no directory is known. -/
def shownPath (s : Settings) (t : Terminal) (path : String) : String :=
  match s.directory <|> t.workingDirectory with
  | some directory => SourcePath.shownIn directory path
  | none => path

end Settings

end ScriptFrontend
