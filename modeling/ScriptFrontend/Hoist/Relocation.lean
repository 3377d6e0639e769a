import ScriptFrontend.Hoist.Basic

/-!
# Hoisting one value

Hoisting a value takes four steps: a placeholder is put where the value is, a hoister is bound to
the block, the value is injected as an assignment, and a reference to the assignment is put in
place of the placeholder. The injection makes the block longer, so the place to put the reference
into is addressed anew. What was done before a failing step stays done.
-/

namespace ScriptFrontend

/-- Why a value cannot be hoisted: there is none at the position, or the hoister failed. -/
inductive RelocationError
  | noSuchChild (error : IndexError)
  | hoist (error : HoistError)
deriving DecidableEq

def RelocationError.message : RelocationError → String
  | .noSuchChild error => error.message
  | .hoist error => error.message

/-- A hoisted value: its assignment, and whether a reference to it was put somewhere. -/
structure Relocation where
  assignment : Tree
  installed : Bool
deriving DecidableEq

/-- How hoisting a value ended, with the block as it is then. -/
structure HoistRun where
  result : Except RelocationError Relocation
  block : Tree
  events : List Event

/-- A displaced child as a value; a lone token is the entity that it stands for. -/
def Child.toValue : Child → Tree
  | .token t => ⟨"entity", [.token t]⟩
  | .tree tag cs => ⟨tag, cs⟩

namespace Tree

/-- Puts a child somewhere in a tree; the tree stays as it is if that fails. -/
def replaceIn (index : Nat) (item : Child) (t : Tree) : Except IndexError Child × Tree :=
  match t.replace index item with
  | .error e => (.error e, t)
  | .ok (displaced, t) => (.ok displaced, t)

/-- Puts a reference to an assignment at a node of a block, if there is such a node. -/
def install (block : Tree) (destination : Address) (index : Nat) (assignment : Tree) :
    Except RelocationError Relocation × Tree :=
  match Hoister.referenceTo? assignment with
  | none => (.ok ⟨assignment, false⟩, block)
  | some reference =>
    match block.edit? destination (replaceIn index (.ofTree reference)) with
    | none => (.ok ⟨assignment, false⟩, block)
    | some (.error e, block) => (.error (.noSuchChild e), block)
    | some (.ok _, block) => (.ok ⟨assignment, true⟩, block)

/-- Hoists the child at a position of the node at `site`, and puts a reference to it at the same
position of the node that is at `destination` afterwards. There is no answer when there is no node
at `site`. -/
def hoist? (block : Tree) (site : Address) (index : Nat) (placeholder : Child)
    (destination : Address) : Option HoistRun :=
  match block.edit? site (replaceIn index placeholder) with
  | none => none
  | some (.error e, block) => some ⟨.error (.noSuchChild e), block, []⟩
  | some (.ok displaced, block) =>
    match Hoister.bind block with
    | .error e => some ⟨.error (.hoist e), block, []⟩
    | .ok h =>
      match (Hoister.inject displaced.toValue).run h with
      | (.error e, h) => some ⟨.error (.hoist e), h.block, h.events⟩
      | (.ok assignment, h) =>
        let (result, block) := h.block.install destination index assignment
        some ⟨result, block, h.events⟩

end Tree

end ScriptFrontend
