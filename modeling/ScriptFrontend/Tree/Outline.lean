import ScriptFrontend.Tree.Basic

/-!
# Outlines

The outline of a tree is a text with one row per node, in pre-order: a tree's row is its tag, a
token's row its kind, a space and its value. A row is indented by two spaces for each tree that the
node is inside of, and ends with a newline.
-/

namespace ScriptFrontend

/-- A row of an outline, with the number of trees around its node. -/
structure Row where
  depth : Nat
  text : String
deriving DecidableEq

def Row.render (r : Row) : String :=
  String.ofList (List.replicate (2 * r.depth) ' ') ++ r.text ++ "\n"

namespace Child

mutual

/-- The rows of a child that is inside of `depth` trees. -/
def rows (depth : Nat) : Child → List Row
  | .token t => [⟨depth, t.kind ++ " " ++ t.value⟩]
  | .tree tag cs => ⟨depth, tag⟩ :: rowsAll (depth + 1) cs

def rowsAll (depth : Nat) : List Child → List Row
  | [] => []
  | c :: cs => c.rows depth ++ rowsAll depth cs

end

end Child

def Tree.rows (t : Tree) : List Row := (Child.ofTree t).rows 0

def Tree.outline (t : Tree) : String := String.join (t.rows.map Row.render)

end ScriptFrontend
