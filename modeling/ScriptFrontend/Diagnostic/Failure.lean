import ScriptFrontend.PassError

/-!
# Failures

A failure is what goes wrong while a program is read or compiled, in the form in which it is first
met: the parser met a token that it had no use for, the lexer met a character that begins no token,
a compiler pass raised an error, or something else failed that has only a message.
-/

namespace ScriptFrontend

/-- A place in the source; lines and columns count from 1. -/
structure Location where
  line : Nat
  column : Nat
  endColumn : Option Nat
deriving DecidableEq

/-- How many characters to mark: up to the end column, and at least one. -/
def Location.width (l : Location) : Nat :=
  match l.endColumn with
  | none => 1
  | some stop => max 1 (stop - l.column)

/-- The place of a tree in the source. A tree on a derived line is placed on the source line that
its line derives from. -/
def Location.ofPosition (p : Position) : Location :=
  ⟨p.line.source.val, p.column.toNat, p.endColumn.map (·.toNat)⟩

/-- What went wrong, in the form in which it was met. -/
inductive Failure
  | unexpectedToken (location : Location) (token : String) (expected : List String)
  /-- `allowed` is absent when anything could have followed. -/
  | unexpectedCharacter (location : Location) (allowed : Option (List String))
  | pass (error : PassError)
  | message (text : String)
deriving DecidableEq

namespace Failure

/-- Where the failure is, if it is anywhere in the source. -/
def location? : Failure → Option Location
  | .unexpectedToken location _ _ => some location
  | .unexpectedCharacter location _ => some location
  | .pass error => error.position.map .ofPosition
  | .message _ => none

def kind : Failure → String
  | .unexpectedToken .. => "unexpected_token"
  | .unexpectedCharacter .. => "unexpected_characters"
  | .pass _ => "compiler"
  | .message _ => "message"

/-- The failure in words, without a hint. -/
def text : Failure → String
  | .unexpectedToken location token _ =>
    "unexpected token `" ++ token ++ s!"` at line {location.line}, column {location.column}"
  | .unexpectedCharacter location _ =>
    s!"unexpected character at line {location.line}, column {location.column}"
  | .pass error => error.fault.message
  | .message text => text

end Failure

end ScriptFrontend
