import ScriptFrontend.Token

/-!
# Syntax trees

A tree is a tag, which names a construct of the grammar, over an ordered list of children; a child
is a token or a tree again. Only trees have children, so a whole program is one `Tree`, while the
recursion runs over `Child` and `List Child`: `Child.forest_induction` is the induction principle
that follows it.
-/

namespace ScriptFrontend

/-- A child of a tree: a token, or a tag over children of its own. -/
inductive Child
  | token (token : Token)
  | tree (tag : String) (children : List Child)

structure Tree where
  tag : String
  children : List Child

namespace Child

mutual

def decEq : (a b : Child) → Decidable (a = b)
  | .token s, .token t =>
    if h : s = t then isTrue (by rw [h]) else isFalse (by simpa using h)
  | .token _, .tree _ _ => isFalse nofun
  | .tree _ _, .token _ => isFalse nofun
  | .tree s as, .tree t bs =>
    if h : s = t then
      match decEqAll as bs with
      | isTrue hs => isTrue (by rw [h, hs])
      | isFalse hs => isFalse (by simp [hs])
    else isFalse (by simp [h])

def decEqAll : (as bs : List Child) → Decidable (as = bs)
  | [], [] => isTrue rfl
  | [], _ :: _ => isFalse nofun
  | _ :: _, [] => isFalse nofun
  | a :: as, b :: bs =>
    match decEq a b with
    | isFalse h => isFalse (by simp [h])
    | isTrue h =>
      match decEqAll as bs with
      | isTrue hs => isTrue (by rw [h, hs])
      | isFalse hs => isFalse (by simp [hs])

end

instance : DecidableEq Child := decEq

/-- Induction over a list of children: through the children of its first tree, and through the
rest of the list. -/
theorem forest_induction {P : List Child → Prop} (nil : P [])
    (token : ∀ t rest, P rest → P (.token t :: rest))
    (tree : ∀ tag cs rest, P cs → P rest → P (.tree tag cs :: rest)) (cs : List Child) : P cs :=
  match cs with
  | [] => nil
  | .token t :: rest => token t rest (forest_induction nil token tree rest)
  | .tree tag inner :: rest =>
    tree tag inner rest (forest_induction nil token tree inner)
      (forest_induction nil token tree rest)

def ofTree (t : Tree) : Child := .tree t.tag t.children

def toTree? : Child → Option Tree
  | .token _ => none
  | .tree tag cs => some ⟨tag, cs⟩

def toToken? : Child → Option Token
  | .token t => some t
  | .tree _ _ => none

@[simp] theorem toTree?_ofTree (t : Tree) : (ofTree t).toTree? = some t := rfl

@[simp] theorem toTree?_token (t : Token) : (token t).toTree? = none := rfl

@[simp] theorem toTree?_tree (tag : String) (cs : List Child) :
    (tree tag cs).toTree? = some ⟨tag, cs⟩ := rfl

theorem toTree?_eq_some_iff {c : Child} {t : Tree} : c.toTree? = some t ↔ c = ofTree t := by
  cases c with
  | token u => simp [ofTree]
  | tree tag cs =>
    cases t
    simp [ofTree]

theorem ofTree_injective {s t : Tree} (h : ofTree s = ofTree t) : s = t := by
  simpa using congrArg toTree? h

end Child

instance : DecidableEq Tree := fun s t =>
  decidable_of_iff (Child.ofTree s = Child.ofTree t) ⟨Child.ofTree_injective, congrArg _⟩

/-- The direct children that are trees. -/
def Tree.subtrees (t : Tree) : List Tree := t.children.filterMap Child.toTree?

end ScriptFrontend
