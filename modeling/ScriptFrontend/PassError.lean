import ScriptFrontend.Code
import ScriptFrontend.Tree.Position

/-!
# Errors of compiler passes

A pass that walks a tree and finds it wrong raises a fault, and points at the offending tree when
that tree has a position. A tree on a derived line keeps that line here; reports trace it back to
the source line.
-/

namespace ScriptFrontend

inductive Fault
  | code (code : Code)
  | functionRedeclared (name : String) (previous : Line)
  | unknown
deriving DecidableEq

namespace Fault

def toCode : Fault → Code
  | .code c => c
  | .functionRedeclared _ _ => .functionRedeclared
  | .unknown => .unidentified

def message : Fault → String
  | .code c => c.title
  | .functionRedeclared name previous =>
    "function `" ++ name ++ "` has already been declared at line " ++ previous.dotted
  | .unknown => "Unknown compiler error"

end Fault

/-- A fault, and where it was found. -/
structure PassError where
  fault : Fault
  position : Option Position
deriving DecidableEq

/-- A fault found at a tree; where the tree has no position, the error has none either. -/
def PassError.foundAt (fault : Fault) (t : Tree) : PassError := ⟨fault, t.position.toOption⟩

/-- Raises a fault at a tree unless a condition holds. -/
def Tree.require (t : Tree) (condition : Bool) (fault : Fault) : Except PassError Unit :=
  if condition then .ok () else .error (.foundAt fault t)

end ScriptFrontend
