import ScriptFrontend.Tree.Basic

/-!
# Looking up subtrees by tag

Tokens carry no tag, so none of these queries ever answers one. Where several direct children have
the tag, a single answer is the first of them; a path of tags takes that step once per tag.
-/

namespace ScriptFrontend

/-- The tags between the dots of a path; the empty text is a path of one empty tag. -/
def tagPath (path : String) : List String := (path.toList.splitOn '.').map String.ofList

namespace Tree

def tagged (t : Tree) (tag : String) : List Tree := t.subtrees.filter (·.tag == tag)

def subtree? (t : Tree) (tag : String) : Option Tree := t.subtrees.find? (·.tag == tag)

/-- The subtree at the end of a path of tags. -/
def follow? : Tree → List String → Option Tree
  | t, [] => some t
  | t, tag :: path => (t.subtree? tag).bind (·.follow? path)

/-- The subtree at the end of a path of child positions. -/
def at? : Tree → List Nat → Option Tree
  | t, [] => some t
  | t, index :: path => (t.children[index]?.bind Child.toTree?).bind (·.at? path)

theorem mem_tagged_iff {t s : Tree} {tag : String} :
    s ∈ t.tagged tag ↔ Child.ofTree s ∈ t.children ∧ s.tag = tag := by
  simp [tagged, subtrees, Child.toTree?_eq_some_iff]

end Tree

end ScriptFrontend
