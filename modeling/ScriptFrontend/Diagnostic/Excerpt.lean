import ScriptFrontend.Diagnostic.Failure
import ScriptFrontend.Diagnostic.Settings
import ScriptFrontend.Text.LineTable

/-!
# Excerpts

An excerpt shows a place in a source text: a header that names the file, the line behind its
number, and markers below the characters in question.

    Error: syntax error in a.story at line 2, column 5

    2|    foo bar
              ^
-/

namespace ScriptFrontend

structure Excerpt where
  source : String
  name : String
  coloured : Bool

namespace Excerpt

open Text

/-- What stands between the number of a line and its text. -/
def gutter : String := "|    "

def header (e : Excerpt) (t : Terminal) (l : Location) : String :=
  let name := if e.coloured then t.styled .bold e.name else e.name
  "Error: syntax error in " ++ name ++ s!" at line {l.line}, column {l.column}"

/-- The markers below the place, in colour if asked for. -/
def markers (e : Excerpt) (t : Terminal) (l : Location) : String :=
  let carets := String.ofList (List.replicate l.width '^')
  if e.coloured then t.styled .red carets else carets

/-- How far the markers are indented: past the line number, the gutter and the columns before. -/
def indent (l : Location) : Nat := (toString l.line).length + gutter.length + (l.column - 1)

/-- The line behind its number, and below it the markers. -/
def highlight (e : Excerpt) (t : Terminal) (l : Location) : String :=
  toString l.line ++ gutter ++ lineOf e.source l.line ++ "\n" ++
    String.ofList (List.replicate (indent l) ' ') ++ e.markers t l

/-- A whole report: header, highlighted line, and the code with its hint. -/
def report (e : Excerpt) (t : Terminal) (l : Location) (code hint : String) : String :=
  e.header t l ++ "\n\n" ++ e.highlight t l ++ "\n\n" ++ code ++ ": " ++ hint

end Excerpt

end ScriptFrontend
