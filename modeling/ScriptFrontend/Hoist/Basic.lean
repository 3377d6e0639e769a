import ScriptFrontend.Event
import ScriptFrontend.Tree.Position

/-!
# Hoisting values out of statements

A pass that takes a value out of a statement gives it a statement of its own: `a = f(g(1))` becomes
`p-3.1 = g(1)` followed by `a = f(p-3.1)`. The new statement has no line in the source, so it gets
a line derived from the block that it is put into.

A `Hoister` is bound to one block and counts the lines that it derives. Lines stay in order across
hoisters: a new one starts behind the highest line that an assignment of the block is on already.
The new assignment goes in front of the last child of the block, which is the statement itself or,
for a statement that opens a nested block, that nested block.

Operations run in `HoistM`, where the hoister outlives a failure, in the state that the failing
operation had brought it to.
-/

namespace ScriptFrontend

/-- Why a hoister cannot do what it is asked to do. -/
inductive HoistError
  | emptyBlock
  | position (error : PositionError)
  /-- There is no further suffix after the next one. -/
  | suffixesExhausted
deriving DecidableEq

def HoistError.message : HoistError → String
  | .emptyBlock => "a block holds at least a statement, found 0 children"
  | .position error => error.message
  | .suffixesExhausted => "attempt to add with overflow"

structure Hoister where
  block : Tree
  /-- The line that the block was on when the hoister was bound to it. -/
  origin : Line
  next : Component
  /-- The lines derived so far, in order. -/
  minted : List Line
  /-- What derived lines have left in the log. -/
  events : List Event

abbrev HoistM := ExceptT HoistError (StateM Hoister)

namespace HoistM

/-- Runs an operation; the hoister comes back from a failure too. -/
def run {α : Type} (op : HoistM α) (h : Hoister) : Except HoistError α × Hoister :=
  StateT.run (ExceptT.run op) h

/-- What an operation needs to know about the position of a tree. -/
def ofPosition {α : Type} : Except PositionError α → HoistM α
  | .ok a => pure a
  | .error e => throw (.position e)

end HoistM

namespace Hoister

/-- The line that a hoister derives its lines from. A block that is on a derived line itself gets
siblings of that line and not lines derived from it. -/
def base (h : Hoister) : Line := h.origin.parent

/-- The highest suffix among the assignments of a block that are on lines derived from `base`, or
zero. -/
def highestSuffix (block : Tree) (base : Line) : Nat :=
  (suffixes.map Component.val).foldl max 0
where
  lines : List Line := (block.tagged "assignment").filterMap fun a => a.line.toOption
  suffixes : List Component :=
    (lines.filter fun l => l.isSynthetic && l.parent == base).map Line.last

def bind (block : Tree) : Except HoistError Hoister :=
  if block.children.isEmpty then .error .emptyBlock
  else
    match block.line with
    | .error e => .error (.position e)
    | .ok origin =>
      match Component.ofNat? (highestSuffix block origin.parent + 1) with
      | none => .error .suffixesExhausted
      | some next => .ok ⟨block, origin, next, [], []⟩

/-- What a derived line leaves in the log. -/
def mintEvent (h : Hoister) (line : Line) : Event :=
  ⟨.debug, "minted synthetic line", [("block", h.origin.dotted), ("line", line.dotted)]⟩

/-- The next line to be derived. The counter is moved on first, which can fail; then the line is put
into the log, and only then among the derived lines. -/
def freshLine : HoistM Line := do
  let h ← get
  let line := h.base.child h.next
  match h.next.succ? with
  | none => throw .suffixesExhausted
  | some next =>
    set { h with next }
    modify fun h => { h with events := h.events ++ [h.mintEvent line] }
    modify fun h => { h with minted := h.minted ++ [line] }
    return line

/-- The line of a tree if this hoister derived it, or else a new one. -/
def lineFor (t : Tree) : HoistM Line := do
  let line ← HoistM.ofPosition t.line
  if line ∈ (← get).minted then return line else freshLine

def pathOn (line : Line) (name : String) : Tree :=
  ⟨"path", [.token (.synthetic "NAME" name line)]⟩

/-- The name of the target that is assigned to on a derived line. -/
def targetName (line : Line) : String := "p-" ++ line.dotted

/-- A path on a line, or on a new line if none is given, which is named after its line if no name
is given. -/
def makePath (name : Option String) (line : Option Line) : HoistM Tree := do
  let line ← match line with
    | some line => pure line
    | none => freshLine
  return pathOn line (name.getD (targetName line))

def assignmentOn (line : Line) (value : Tree) : Tree :=
  ⟨"assignment", [.ofTree (pathOn line (targetName line)),
    .tree "assignment_fragment" [.token (.synthetic "EQUALS" "=" line), .ofTree value]]⟩

/-- Assigns a value on its line, if this hoister derived that, or else on a new one, and moves the
leftmost token of the value there. -/
def makeAssignment (value : Tree) : HoistM Tree := do
  let line ← lineFor value
  let value ← HoistM.ofPosition (value.mapFirstToken fun token => { token with line })
  return assignmentOn line value

def insertionIndex (block : Tree) : Nat := block.children.length - 1

/-- The hoister with an assignment put into its block, in front of the last child. -/
def insert (h : Hoister) (assignment : Tree) : Hoister :=
  { h with
    block := { h.block with
      children := h.block.children.insertIdx (insertionIndex h.block) (.ofTree assignment) } }

def inject (value : Tree) : HoistM Tree := do
  let assignment ← makeAssignment value
  modify (·.insert assignment)
  return assignment

/-- The target of an assignment, to be put where the assigned value was. -/
def referenceTo? (assignment : Tree) : Option Tree := assignment.subtree? "path"

end Hoister

end ScriptFrontend
