import ScriptFrontend.Hoist.Basic

/-!
# Runs of a hoister

A pass drives a hoister by a sequence of actions, some of which may fail. A failed action does not
end the run: its error is an outcome like any other, and the next action goes on with the hoister
as it is.
-/

namespace ScriptFrontend

namespace Hoister

/-- One thing that a pass asks of a hoister. -/
inductive Action
  | freshLine
  | lineFor (tree : Tree)
  | makePath (name : Option String) (line : Option Line)
  | makeAssignment (value : Tree)
  | inject (value : Tree)

/-- What an action answers. -/
inductive Outcome
  | line (line : Line)
  | tree (tree : Tree)
deriving DecidableEq

def Action.perform : Action → HoistM Outcome
  | .freshLine => .line <$> Hoister.freshLine
  | .lineFor tree => .line <$> Hoister.lineFor tree
  | .makePath name line => .tree <$> Hoister.makePath name line
  | .makeAssignment value => .tree <$> Hoister.makeAssignment value
  | .inject value => .tree <$> Hoister.inject value

def step (h : Hoister) (action : Action) : Except HoistError Outcome × Hoister :=
  action.perform.run h

def run (h : Hoister) : List Action → List (Except HoistError Outcome) × Hoister
  | [] => ([], h)
  | action :: actions =>
    let (outcome, h) := h.step action
    let (outcomes, h) := h.run actions
    (outcome :: outcomes, h)

end Hoister

end ScriptFrontend
