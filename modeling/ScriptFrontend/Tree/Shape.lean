import ScriptFrontend.Tree.Position

/-!
# Shapes of trees

The grammar wraps a plain value in one tree per level of operator precedence, each with a single
child. Two questions ask about such wrappers: whether an expression is a bare value below all of
them, and whether a tree is a given chain of wrappers and nothing more.
-/

namespace ScriptFrontend

/-- The levels of precedence that an expression without operators descends through, outermost
first. -/
def precedenceLevels : List String :=
  ["expression", "or_expression", "and_expression", "cmp_expression", "arith_expression",
    "mul_expression", "unary_expression", "pow_expression", "primary_expression", "entity"]

namespace Child

/-- A child inside single-child trees with these tags, outermost first. -/
def wrap (tags : List String) (c : Child) : Child := tags.foldr (fun tag c => .tree tag [c]) c

/-- Whether something is wrapped in single-child trees with these tags. -/
def isWrappedIn : List String → Child → Bool
  | [], _ => true
  | tag :: tags, .tree tag' [c] => tag' == tag && c.isWrappedIn tags
  | _ :: _, _ => false

@[simp] theorem wrap_cons (tag : String) (tags : List String) (c : Child) :
    c.wrap (tag :: tags) = .tree tag [c.wrap tags] := rfl

theorem isWrappedIn_wrap (tags : List String) (c : Child) : (c.wrap tags).isWrappedIn tags := by
  induction tags with
  | nil => rfl
  | cons tag tags ih => simp [isWrappedIn, ih]

end Child

namespace Tree

/-- Whether an expression is a value with no operator applied to it. -/
def isBareValue (t : Tree) : Bool := (Child.ofTree t).isWrappedIn precedenceLevels

/-- Goes down single-child trees with these tags, to one that holds tokens only. -/
def soleDescent? : List String → Tree → Option Tree
  | [], t => if t.subtrees.isEmpty then some t else none
  | tag :: tags, t =>
    match t.children with
    | [.tree tag' cs] => if tag' = tag then soleDescent? tags ⟨tag', cs⟩ else none
    | _ => none

/-- The innermost tree of a chain of wrappers, when the tree is exactly that chain: `tags` starts
with the tag of the tree itself, which has one child in any case. -/
def innermost? (t : Tree) (tags : List String) : Option Tree :=
  match tags with
  | [] => none
  | tag :: tags => if t.children.length = 1 ∧ t.tag = tag then soleDescent? tags t else none

/-- The dotted name that a path stands for: its tokens, and for each fragment a dot and the
fragment's leftmost token. -/
def pathName (t : Tree) : String := String.join (t.children.map segment)
where
  segment : Child → String
    | .token t => t.value
    | .tree _ cs =>
      match Child.leftmostIn? cs with
      | some t => "." ++ t.value
      | none => "."

end Tree

end ScriptFrontend
