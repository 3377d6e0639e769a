import ScriptFrontend.Diagnostic.Failure
import ScriptFrontend.Diagnostic.Intent
import ScriptFrontend.Event
import ScriptFrontend.Text.Letter
import ScriptFrontend.Text.LineTable

/-!
# Classifying failures

Every failure falls under exactly one code. An error of a compiler pass has its code with it, and a
bare message falls under none of the others. A failure of the lexer or the parser is classified by
the line that it is on, by rules that are tried in order: the first one that applies decides.
-/

namespace ScriptFrontend

namespace Failure

open Text

/-- Whether the parser would have taken nothing but an indentation. Some grammars write the name of
that token with leading underscores. -/
def expectsOnlyIndent : List String → Bool
  | [only] => only.toList.dropWhile (· == '_') == "INDENT".toList
  | _ => false

def tokenCode (intent : Intent) (line : String) (expected : List String) : Code :=
  if intent.assigns line then .assignmentIncomplete
  else if intent.hasStrayColon line then .unnecessaryColon
  else if expectsOnlyIndent expected then .blockExpectedAfter
  else .unexpectedToken

def characterCode (intent : Intent) (line : String) (column : Nat)
    (allowed : Option (List String)) : Code :=
  if intent.declaresFunction line then .functionMisspelt
  else if intent.hasStrayColon line then .unnecessaryColon
  else if allowed.isNone && (charAt? line column).any isNameStart then .blockExpectedBefore
  else .invalidCharacter

def classify (intent : Intent) (source : String) : Failure → Code
  | .unexpectedToken location _ expected =>
    tokenCode intent (lineOf source location.line) expected
  | .unexpectedCharacter location allowed =>
    characterCode intent (lineOf source location.line) location.column allowed
  | .pass error => error.fault.toCode
  | .message _ => .unidentified

/-- The log of a classification: the line that was looked at, if any was, and the outcome. -/
def classificationEvents (intent : Intent) (source : String) (failure : Failure) : List Event :=
  looked ++
    [⟨.debug, "classified failure",
      [("code", (failure.classify intent source).number), ("kind", failure.kind),
        ("line", lineText)]⟩]
where
  looked : List Event :=
    match failure with
    | .unexpectedToken location _ _ =>
      [⟨.trace, "checking unexpected token intention", [("line", lineOf source location.line)]⟩]
    | .unexpectedCharacter location _ =>
      [⟨.trace, "checking unexpected character intention",
        [("line", lineOf source location.line)]⟩]
    | _ => []
  lineText : String :=
    match failure.location? with
    | some location => s!"Some({location.line})"
    | none => "None"

end Failure

end ScriptFrontend
