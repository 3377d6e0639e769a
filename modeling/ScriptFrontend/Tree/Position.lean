import ScriptFrontend.Tree.Edit

/-!
# Positions

A tree has no position of its own. Its position is that of its leftmost token, the one reached by
going to the first child again and again. When that way ends in a tree without children there is
no such token, and no later child stands in for it. A token made up by a compiler pass has a line
but no columns; the line of a tree over it is known, its position is not.
-/

namespace ScriptFrontend

/-- Where a tree starts. -/
structure Position where
  line : Line
  column : UInt32
  endColumn : Option UInt32
deriving DecidableEq

/-- The parts of a position that a token may lack. -/
inductive PositionPart
  | column
  | endColumn
deriving DecidableEq

/-- Why a tree has no position; `tag` is the tag of the tree that was asked for it. -/
inductive PositionError
  | noToken (tag : String)
  | missing (tag : String) (part : PositionPart)
deriving DecidableEq

def PositionPart.name : PositionPart → String
  | .column => "column"
  | .endColumn => "end column"

def PositionError.message : PositionError → String
  | .noToken tag => "`" ++ tag ++ "` has no token on its leftmost spine"
  | .missing tag part => "the leftmost token of `" ++ tag ++ "` has no " ++ part.name

namespace Child

mutual

/-- The token reached by going to the first child again and again. -/
def leftmost? : Child → Option Token
  | .token t => some t
  | .tree _ cs => leftmostIn? cs

def leftmostIn? : List Child → Option Token
  | [] => none
  | c :: _ => c.leftmost?

end

mutual

/-- The child with its leftmost token changed, if it has one. -/
def mapLeftmost? (f : Token → Token) : Child → Option Child
  | .token t => some (.token (f t))
  | .tree tag cs => (mapLeftmostIn? f cs).map (.tree tag)

def mapLeftmostIn? (f : Token → Token) : List Child → Option (List Child)
  | [] => none
  | c :: cs => (c.mapLeftmost? f).map (· :: cs)

end

/-- A leftmost token can be changed wherever there is one. -/
theorem mapLeftmostIn?_eq_none_iff {f : Token → Token} {cs : List Child} :
    mapLeftmostIn? f cs = none ↔ leftmostIn? cs = none := by
  induction cs using forest_induction with
  | nil => simp [mapLeftmostIn?, leftmostIn?]
  | token t rest => simp [mapLeftmostIn?, mapLeftmost?, leftmostIn?, leftmost?]
  | tree tag inner rest ih => simpa [mapLeftmostIn?, mapLeftmost?, leftmostIn?, leftmost?] using ih

theorem leftmostIn?_of_mapLeftmostIn? {f : Token → Token} {cs ds : List Child}
    (h : mapLeftmostIn? f cs = some ds) : leftmostIn? ds = (leftmostIn? cs).map f := by
  induction cs using forest_induction generalizing ds with
  | nil => simp [mapLeftmostIn?] at h
  | token t rest =>
    simp [mapLeftmostIn?, mapLeftmost?] at h
    simp [← h, leftmostIn?, leftmost?]
  | tree tag inner rest ih =>
    simp [mapLeftmostIn?, mapLeftmost?] at h
    obtain ⟨inner', changed, rfl⟩ := h
    simpa [leftmostIn?, leftmost?] using ih changed

end Child

namespace Tree

def firstToken (t : Tree) : Except PositionError Token :=
  match Child.leftmostIn? t.children with
  | some token => .ok token
  | none => .error (.noToken t.tag)

def mapFirstToken (t : Tree) (f : Token → Token) : Except PositionError Tree :=
  match Child.mapLeftmostIn? f t.children with
  | some children => .ok { t with children }
  | none => .error (.noToken t.tag)

/-- The line of a tree, which is known for every token. -/
def line (t : Tree) : Except PositionError Line := do
  return (← t.firstToken).line

/-- The column of a tree; made-up tokens have none. -/
def column (t : Tree) : Except PositionError UInt32 := do
  match (← t.firstToken).column with
  | some column => return column
  | none => throw (.missing t.tag .column)

/-- The column behind the leftmost token of a tree. -/
def endColumn (t : Tree) : Except PositionError UInt32 := do
  match (← t.firstToken).endColumn with
  | some column => return column
  | none => throw (.missing t.tag .endColumn)

/-- Line and columns together; a token without an end column still has a position. -/
def position (t : Tree) : Except PositionError Position := do
  let token ← t.firstToken
  match token.column with
  | some column => return ⟨token.line, column, token.endColumn⟩
  | none => throw (.missing t.tag .column)

end Tree

end ScriptFrontend
