import ScriptFrontend.Tree.Query

/-!
# Searching all descendants

A search for a tag walks the descendants of a tree in pre-order and can be stopped after any
answer. Its state is the list of trees still to be walked, next one first: to take one more step is
to put the subtrees of the first tree in its place. On a stack with the top at the end that takes a
reversal, which `turn_reverse_pending` accounts for. The size of the trees in the list falls at every
step, so a search ends.

`Tree.descendants` is the same order said by recursion, with no state.
-/

namespace ScriptFrontend

namespace Child

mutual

def size : Child → Nat
  | .token _ => 1
  | .tree _ cs => 1 + sizeAll cs

def sizeAll : List Child → Nat
  | [] => 0
  | c :: cs => c.size + sizeAll cs

end

mutual

/-- The trees of a child, each before the trees inside it. -/
def preorder : Child → List Tree
  | .token _ => []
  | .tree tag cs => ⟨tag, cs⟩ :: preorderAll cs

def preorderAll : List Child → List Tree
  | [] => []
  | c :: cs => c.preorder ++ preorderAll cs

end

theorem sizeAll_append (cs ds : List Child) :
    sizeAll (cs ++ ds) = sizeAll cs + sizeAll ds := by
  induction cs with
  | nil => simp [sizeAll]
  | cons c cs ih =>
    simp [sizeAll, ih]
    omega

/-- Tokens only add to the size. -/
theorem sizeAll_trees_le (cs : List Child) :
    sizeAll ((cs.filterMap toTree?).map ofTree) ≤ sizeAll cs := by
  induction cs with
  | nil => simp
  | cons c cs ih =>
    cases c with
    | token t =>
      simp [sizeAll, List.filterMap_cons]
      omega
    | tree tag inner =>
      simp [sizeAll, ofTree]
      omega

end Child

namespace Tree

/-- All trees inside a tree, in pre-order; the tree itself is not among them. -/
def descendants (t : Tree) : List Tree := Child.preorderAll t.children

end Tree

/-- A search under way: the tag that is looked for and the trees still to be walked. -/
structure Search where
  tag : String
  pending : List Tree

namespace Search

/-- What is left to walk, as a number of nodes. -/
def weight (s : Search) : Nat := Child.sizeAll (s.pending.map .ofTree)

/-- The search with the first pending tree replaced by its subtrees. -/
def expand (tag : String) (t : Tree) (rest : List Tree) : Search := ⟨tag, t.subtrees ++ rest⟩

/-- One turn of a search that keeps its trees on a stack with the top at the end: the top is taken
off, its subtrees are put on in their order, and the part that was put on is reversed. -/
def turn (stack : List Tree) : Option (Tree × List Tree) :=
  stack.getLast?.map fun t =>
    let below := stack.dropLast
    let pushed := below ++ t.subtrees
    (t, pushed.take below.length ++ (pushed.drop below.length).reverse)

/-- The pending trees are such a stack, read from its top, and `expand` is a turn of it. -/
theorem turn_reverse_pending (tag : String) (t : Tree) (rest : List Tree) :
    turn (Search.mk tag (t :: rest)).pending.reverse =
      some (t, (expand tag t rest).pending.reverse) := by
  have top : (t :: rest).reverse.getLast? = some t := by simp
  have below : (t :: rest).reverse.dropLast = rest.reverse := by simp
  simp only [turn, top, below, Option.map_some, expand, List.take_left, List.drop_left,
    List.reverse_append]

theorem weight_expand_lt (tag : String) (t : Tree) (rest : List Tree) :
    (expand tag t rest).weight < weight ⟨tag, t :: rest⟩ := by
  have := Child.sizeAll_trees_le t.children
  simp [weight, expand, Tree.subtrees, Child.sizeAll_append, Child.sizeAll, Child.ofTree,
    Child.size] at *
  omega

/-- The next tree with the tag, and the search that goes on after it. -/
def next? : Search → Option (Tree × Search)
  | ⟨_, []⟩ => none
  | ⟨tag, t :: rest⟩ =>
    if t.tag = tag then some (t, expand tag t rest) else (expand tag t rest).next?
termination_by s => s.weight
decreasing_by exact weight_expand_lt ..

theorem weight_next?_lt {s s' : Search} {t : Tree} (h : s.next? = some (t, s')) :
    s'.weight < s.weight := by
  fun_induction next? s with
  | case1 => simp at h
  | case2 u rest =>
    obtain ⟨rfl, rfl⟩ := Prod.mk.inj (Option.some.inj h)
    exact weight_expand_lt ..
  | case3 tag u rest _ ih => exact Nat.lt_trans (ih h) (weight_expand_lt ..)

/-- The first answers of a search, at most as many as are asked for. -/
def take : Nat → Search → List Tree
  | 0, _ => []
  | n + 1, s =>
    match s.next? with
    | none => []
    | some (t, s') => t :: s'.take n

def toList (s : Search) : List Tree :=
  match _h : s.next? with
  | none => []
  | some (t, s') => t :: s'.toList
termination_by s.weight
decreasing_by exact weight_next?_lt ‹_›

end Search

/-- A search for the descendants with a tag. -/
def Tree.search (t : Tree) (tag : String) : Search := ⟨tag, t.subtrees⟩

end ScriptFrontend
