import ScriptFrontend.Text.Blank
import ScriptFrontend.Text.Distance

/-!
# What the author of a line meant

An `Intent` guesses from the text of one line what its author was about to write. It needs no
tokens, so it also works on a line that the lexer could not read. The guesses by default look at
how the line ends and at its words.
-/

namespace ScriptFrontend

/-- Guesses about a line of source. -/
structure Intent where
  /-- The line assigns, and the value is missing. -/
  assigns : String → Bool
  /-- The line ends in a colon that opens nothing. -/
  hasStrayColon : String → Bool
  /-- The line declares a function, and the keyword is not spelt right. -/
  declaresFunction : String → Bool

namespace Intent

open Text

/-- The line ends in an equals sign with something in front of it, which is not the end of a
comparison sign. -/
def endsInAssignment (line : String) : Bool :=
  match (trimEnd line.toList).reverse with
  | '=' :: before =>
    !(before.head?.any (['=', '!', '<', '>'].contains ·)) && before.any (!isBlank ·)
  | _ => false

/-- The line ends in a colon, blanks aside. -/
def endsInColon (line : String) : Bool := (trimEnd line.toList).getLast? == some ':'

/-- The first word is a misspelling of `function`, or else it is some other word and a later one
says what the function returns. -/
def opensMisspeltFunction (line : String) : Bool :=
  match (words line.toList).map String.ofList with
  | [] => false
  | first :: rest =>
    first != "function" && (isMisspelling first "function" || rest.contains "returns")

/-- The guesses that are made when no others are asked for. -/
def byText : Intent := ⟨endsInAssignment, endsInColon, opensMisspeltFunction⟩

def constant (assigns hasStrayColon declaresFunction : Bool) : Intent :=
  ⟨fun _ => assigns, fun _ => hasStrayColon, fun _ => declaresFunction⟩

end Intent

end ScriptFrontend
