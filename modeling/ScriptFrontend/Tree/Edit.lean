import ScriptFrontend.Tree.Query

/-!
# Editing trees

An edit of one node gives the edited tree back. To edit a node deep inside a tree, an address leads
to it (a path of tags, or a path of child positions), the edit is done there, and the way back puts
every level together again with all its other children in place. An edit may answer something
besides the tree, such as the child that it displaced.
-/

namespace ScriptFrontend

/-- A child position that a tree does not have. -/
structure IndexError where
  length : Nat
  index : Nat
deriving DecidableEq

def IndexError.message (e : IndexError) : String :=
  s!"index out of bounds: the len is {e.length} but the index is {e.index}"

/-- The way from a tree to one of its nodes. The empty list of positions leads to the tree itself;
a path of tags enters, at each step, the first direct subtree with the tag. -/
inductive Address
  | tags (path : List String)
  | positions (path : List Nat)
deriving DecidableEq

namespace Tree

def prepend (t : Tree) (item : Child) : Tree := { t with children := item :: t.children }

def append (t : Tree) (item : Child) : Tree := { t with children := t.children ++ [item] }

def retag (t : Tree) (tag : String) : Tree := { t with tag }

/-- Puts an item in the place of a child, and answers the child too. -/
def replace (t : Tree) (index : Nat) (item : Child) : Except IndexError (Child × Tree) :=
  match t.children[index]? with
  | none => .error ⟨t.children.length, index⟩
  | some displaced => .ok (displaced, { t with children := t.children.set index item })

variable {α : Type}

/-- Edits the first tree with a tag among some children. -/
def editFirst? (tag : String) (edit : Tree → Option (α × Tree)) :
    List Child → Option (α × List Child)
  | [] => none
  | .token t :: rest => (editFirst? tag edit rest).map fun (a, rest) => (a, .token t :: rest)
  | .tree tag' cs :: rest =>
    if tag' = tag then (edit ⟨tag', cs⟩).map fun (a, s) => (a, .ofTree s :: rest)
    else (editFirst? tag edit rest).map fun (a, rest) => (a, .tree tag' cs :: rest)

/-- Edits the subtree at the end of a path of tags. -/
def editFollow? (edit : Tree → α × Tree) : List String → Tree → Option (α × Tree)
  | [], t => some (edit t)
  | tag :: path, t =>
    (editFirst? tag (editFollow? edit path) t.children).map fun (a, cs) =>
      (a, { t with children := cs })

/-- Edits the subtree at the end of a path of child positions. -/
def editAt? (edit : Tree → α × Tree) : List Nat → Tree → Option (α × Tree)
  | [], t => some (edit t)
  | index :: path, t =>
    match t.children[index]?.bind Child.toTree? with
    | none => none
    | some s =>
      (editAt? edit path s).map fun (a, s) =>
        (a, { t with children := t.children.set index (.ofTree s) })

def node? (t : Tree) : Address → Option Tree
  | .tags path => t.follow? path
  | .positions path => t.at? path

def edit? (t : Tree) (address : Address) (edit : Tree → α × Tree) : Option (α × Tree) :=
  match address with
  | .tags path => editFollow? edit path t
  | .positions path => editAt? edit path t

end Tree

end ScriptFrontend
