import ScriptFrontend.Code
import ScriptFrontend.Json.Basic
import ScriptFrontend.Tree.Position

/-!
# Trees in JSON

Tokens, trees, lines, positions and codes are stored as JSON. A record is written as an object of
its fields, and is read from such an object or from an array of its fields in order. In an object,
fields that are not known are passed over and optional ones may be missing, but none that is known
may be there twice; an array has them all.
A child is an object of one field, whose key tells a token from a tree. A line is its dotted text,
a code its name.
-/

namespace ScriptFrontend

open Json

def Line.toJson (l : Line) : Json := .str l.dotted

def Line.ofJson? : Json → Option Line
  | .str s => (Line.ofDotted s).toOption
  | _ => none

/-- An optional column. -/
def columnToJson : Option UInt32 → Json := ofOption fun n => ofNat n.toNat

namespace Token

def toJson (t : Token) : Json :=
  .obj [("kind", .str t.kind), ("value", .str t.value), ("line", t.line.toJson),
    ("column", columnToJson t.column), ("end_column", columnToJson t.endColumn)]

def keys : List String := ["kind", "value", "line", "column", "end_column"]

/-- A token from its fields, of which the columns may be absent. -/
def ofFields? (kind value line column endColumn : Option Json) : Option Token := do
  let kind ← kind.bind text?
  let value ← value.bind text?
  let line ← line.bind Line.ofJson?
  let column ← optional? word? column
  let endColumn ← optional? word? endColumn
  return ⟨kind, value, line, column, endColumn⟩

def ofJson? : Json → Option Token
  | .obj fields =>
    if hasOnce keys fields then
      ofFields? (field? fields "kind") (field? fields "value") (field? fields "line")
        (field? fields "column") (field? fields "end_column")
    else none
  | .arr [kind, value, line, column, endColumn] =>
    ofFields? (some kind) (some value) (some line) (some column) (some endColumn)
  | _ => none

end Token

namespace Position

def toJson (p : Position) : Json :=
  .obj [("line", p.line.toJson), ("column", ofNat p.column.toNat),
    ("end_column", columnToJson p.endColumn)]

def keys : List String := ["line", "column", "end_column"]

def ofFields? (line column endColumn : Option Json) : Option Position := do
  let line ← line.bind Line.ofJson?
  let column ← column.bind word?
  let endColumn ← optional? word? endColumn
  return ⟨line, column, endColumn⟩

def ofJson? : Json → Option Position
  | .obj fields =>
    if hasOnce keys fields then
      ofFields? (field? fields "line") (field? fields "column") (field? fields "end_column")
    else none
  | .arr [line, column, endColumn] => ofFields? (some line) (some column) (some endColumn)
  | _ => none

end Position

namespace Code

def toJson (c : Code) : Json := .str c.name

/-- A code may also be written as an object whose one key is its name. -/
def ofJson? : Json → Option Code
  | .str name => ofName? name
  | .obj [(name, .null)] => ofName? name
  | _ => none

end Code

mutual

def Child.toJson : Child → Json
  | .token t => .obj [("Token", t.toJson)]
  | .tree tag cs =>
    .obj [("Tree", .obj [("data", .str tag), ("children", .arr (Child.allToJson cs))])]

def Child.allToJson : List Child → List Json
  | [] => []
  | c :: cs => c.toJson :: Child.allToJson cs

end

def Tree.toJson (t : Tree) : Json :=
  .obj [("data", .str t.tag), ("children", .arr (Child.allToJson t.children))]

def Tree.keys : List String := ["data", "children"]

mutual

def Tree.ofJson? : Json → Option Tree
  | .obj fields =>
    if hasOnce Tree.keys fields then do
      let tag ← (field? fields "data").bind text?
      let children ← Child.allOfFields? fields
      return ⟨tag, children⟩
    else none
  | .arr [.str tag, .arr items] => do
    let children ← Child.allOfJson? items
    return ⟨tag, children⟩
  | _ => none
termination_by structural j => j

def Child.ofJson? : Json → Option Child
  | .obj [(key, value)] =>
    if key = "Token" then (Token.ofJson? value).map .token
    else if key = "Tree" then (Tree.ofJson? value).map .ofTree
    else none
  | _ => none
termination_by structural j => j

def Child.allOfJson? : List Json → Option (List Child)
  | [] => some []
  | item :: items => do
    let child ← Child.ofJson? item
    let children ← Child.allOfJson? items
    return child :: children
termination_by structural items => items

/-- The children of a tree, from the fields of its object, which has them once. -/
def Child.allOfFields? : List (String × Json) → Option (List Child)
  | [] => none
  | (key, value) :: fields =>
    if key = "children" then
      match value with
      | .arr items => Child.allOfJson? items
      | _ => none
    else Child.allOfFields? fields
termination_by structural fields => fields

end

end ScriptFrontend
