import ScriptFrontend.Diagnostic.Basic
import ScriptFrontend.Json.Pretty

/-!
# Diagnostics for tools

A tool gets a diagnostic as a JSON object. Its message is the one that a terminal without colour
would get from plain settings; the name of the file is the one that the diagnostic itself shows.
-/

namespace ScriptFrontend.Diagnostic

open Json

/-- The place of a diagnostic, with the text of its line; an end column is given only if there is
one. -/
def locationToJson (d : Diagnostic) (l : Location) : Json :=
  .obj ([("line", ofNat l.line), ("column", ofNat l.column)] ++
    (l.endColumn.toList.map fun stop => ("end_column", ofNat stop)) ++
    [("source_line", .str d.line)])

/-- The report of a diagnostic as a JSON object. -/
def toJson (d : Diagnostic) (t : Terminal) : Json :=
  .obj ([("code", .str d.code.number), ("kind", .str d.code.name), ("title", .str d.code.title),
    ("category", .str d.code.category.name), ("hint", .str d.hint), ("file", .str (d.name t))] ++
    (d.failure.location?.toList.map fun l => ("location", d.locationToJson l)) ++
    [("message", .str ((d.withSettings .plain).message t))])

def report (d : Diagnostic) (t : Terminal) : String := (d.toJson t).pretty

end ScriptFrontend.Diagnostic
