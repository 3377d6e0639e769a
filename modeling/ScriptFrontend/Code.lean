/-!
# Error codes

Every error that is reported to a user falls under one of nine codes. A code has a number, by which
users look it up, a name, by which tools do, a title, a category, and the template of a hint. A
template holds placeholders such as `{token}`, which are filled in from the error at hand.
-/

namespace ScriptFrontend

inductive Code
  | unidentified
  | invalidCharacter
  | blockExpectedBefore
  | blockExpectedAfter
  | unnecessaryColon
  | functionMisspelt
  | assignmentIncomplete
  | unexpectedToken
  | functionRedeclared
deriving DecidableEq

/-- Where errors of a code come from. -/
inductive Category
  | syntactic
  | semantic
  | unknown
deriving DecidableEq

def Category.name : Category → String
  | .syntactic => "Syntax"
  | .semantic => "Semantic"
  | .unknown => "Unknown"

namespace Code

/-- The codes in the order of their numbers. -/
def all : List Code :=
  [unidentified, invalidCharacter, blockExpectedBefore, blockExpectedAfter, unnecessaryColon,
    functionMisspelt, assignmentIncomplete, unexpectedToken, functionRedeclared]

/-- The number by which users know a code. -/
def number : Code → String
  | unidentified => "E0001"
  | invalidCharacter => "E0002"
  | blockExpectedBefore => "E0003"
  | blockExpectedAfter => "E0004"
  | unnecessaryColon => "E0005"
  | functionMisspelt => "E0006"
  | assignmentIncomplete => "E0007"
  | unexpectedToken => "E0008"
  | functionRedeclared => "E0009"

/-- The name by which tools know a code. -/
def name : Code → String
  | unidentified => "unidentified_error"
  | invalidCharacter => "invalid_character"
  | blockExpectedBefore => "block_expected_before"
  | blockExpectedAfter => "block_expected_after"
  | unnecessaryColon => "unnecessary_colon"
  | functionMisspelt => "function_misspell"
  | assignmentIncomplete => "assignment_incomplete"
  | unexpectedToken => "unexpected_token"
  | functionRedeclared => "function_already_declared"

def title : Code → String
  | unidentified => "unidentified error"
  | invalidCharacter => "invalid character"
  | blockExpectedBefore => "block expected before"
  | blockExpectedAfter => "block expected after"
  | unnecessaryColon => "unnecessary colon"
  | functionMisspelt => "function misspelt"
  | assignmentIncomplete => "assignment incomplete"
  | unexpectedToken => "unexpected token"
  | functionRedeclared => "function already declared"

def category : Code → Category
  | unidentified => .unknown
  | functionRedeclared => .semantic
  | _ => .syntactic

/-- The hint to users, with a placeholder for each part that depends on the error. -/
def hintTemplate : Code → String
  | unidentified => ""
  | invalidCharacter => "`\x7bcharacter\x7d` is not allowed here"
  | blockExpectedBefore => "An indented block is required to be before here"
  | blockExpectedAfter => "An indented block is required to follow here"
  | unnecessaryColon => "There is an unnecessary colon at the end of the line"
  | functionMisspelt => "You have misspelt `function`"
  | assignmentIncomplete => "Missing value after `=`"
  | unexpectedToken => "`\x7btoken\x7d` is not allowed here. Allowed: \x7ballowed\x7d"
  | functionRedeclared =>
    "Function `\x7bname\x7d` has already been declared at line \x7bline\x7d"

def ofNumber? (number : String) : Option Code := all.find? (·.number == number)

def ofName? (name : String) : Option Code := all.find? (·.name == name)

end Code

end ScriptFrontend
