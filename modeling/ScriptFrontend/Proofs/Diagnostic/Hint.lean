import ScriptFrontend.Diagnostic.Basic
import ScriptFrontend.Proofs.Text.Lines
import ScriptFrontend.Proofs.Text.Template

/-!
# What a hint says

A hint comes out of a template, and what is put into the template is text that users wrote: tokens,
names, a character of the source. Here it is said what the hint of a diagnostic is without any
template, so that no placeholder can be left in it and no brace in those texts can count as one. The
hint depends on the code and on the failure, and not every code goes with every failure: a pass may
raise any code, without the data that the hint of the code would name.
-/

namespace ScriptFrontend

open Text

/-! ## Templates -/

/-- For a text that is given as a literal, so that it need not be decoded. -/
theorem notMem_ofList {c : Char} {cs : List Char} (h : c ∉ cs) : c ∉ (String.ofList cs).toList := by
  rwa [String.toList_ofList]

namespace Code

theorem fill_invalidCharacter (character : String) :
    fill [("character", character)] invalidCharacter.hintTemplate
      = "`" ++ character ++ "` is not allowed here" := by
  have spelt : invalidCharacter.hintTemplate
      = "`" ++ "\x7b" ++ "character" ++ "\x7d" ++ "` is not allowed here" := rfl
  rw [spelt, fill_append_placeholder (by decide) (by decide) rfl, fill_of_plain (by decide)]

theorem fill_unexpectedToken (token allowed : String) :
    fill [("token", token), ("allowed", allowed)] unexpectedToken.hintTemplate
      = "`" ++ token ++ "` is not allowed here. Allowed: " ++ allowed := by
  have spelt : unexpectedToken.hintTemplate
      = "`" ++ "\x7b" ++ "token" ++ "\x7d" ++
        ("` is not allowed here. Allowed: " ++ "\x7b" ++ "allowed" ++ "\x7d" ++ "") := rfl
  rw [spelt, fill_append_placeholder (by decide) (by decide) rfl,
    fill_append_placeholder (by decide) (by decide) rfl, fill_of_plain (by decide)]
  simp only [String.append_assoc, String.append_empty]

theorem fill_functionRedeclared (name line : String) :
    fill [("name", name), ("line", line)] functionRedeclared.hintTemplate
      = "Function `" ++ name ++ "` has already been declared at line " ++ line := by
  have spelt : functionRedeclared.hintTemplate
      = "Function `" ++ "\x7b" ++ "name" ++ "\x7d" ++
        ("` has already been declared at line " ++ "\x7b" ++ "line" ++ "\x7d" ++ "") := rfl
  rw [spelt, fill_append_placeholder (by decide) (by decide) rfl,
    fill_append_placeholder (by decide) (by decide) rfl, fill_of_plain (by decide)]
  simp only [String.append_assoc, String.append_empty]

end Code

/-! ## Words -/

namespace Failure

/-- The words of a failure. -/
inductive Says : Failure → String → Prop
  | token (location : Location) (token : String) (expected : List String) :
      Says (.unexpectedToken location token expected)
        ("unexpected token `" ++ token ++ s!"` at line {location.line}, column {location.column}")
  | character (location : Location) (allowed : Option (List String)) :
      Says (.unexpectedCharacter location allowed)
        s!"unexpected character at line {location.line}, column {location.column}"
  | coded {code : Code} {text : String} (position : Option Position)
      (entry : (code, text) ∈ [
        (Code.unidentified, "unidentified error"), (.invalidCharacter, "invalid character"),
        (.blockExpectedBefore, "block expected before"),
        (.blockExpectedAfter, "block expected after"), (.unnecessaryColon, "unnecessary colon"),
        (.functionMisspelt, "function misspelt"),
        (.assignmentIncomplete, "assignment incomplete"), (.unexpectedToken, "unexpected token"),
        (.functionRedeclared, "function already declared")]) :
      Says (.pass ⟨.code code, position⟩) text
  | redeclared (name : String) (previous : Line) (position : Option Position) :
      Says (.pass ⟨.functionRedeclared name previous, position⟩)
        ("function `" ++ name ++ "` has already been declared at line " ++ previous.dotted)
  | unknown (position : Option Position) :
      Says (.pass ⟨.unknown, position⟩) "Unknown compiler error"
  | message (text : String) : Says (.message text) text

theorem Says.text_eq {f : Failure} {text : String} (h : f.Says text) : f.text = text := by
  cases h with
  | coded position entry =>
    simp only [List.mem_cons, Prod.mk.injEq, List.not_mem_nil, or_false] at entry
    rcases entry with h | h | h | h | h | h | h | h | h <;> obtain ⟨rfl, rfl⟩ := h <;> rfl
  | _ => rfl

theorem says_text (f : Failure) : f.Says f.text := by
  cases f with
  | unexpectedToken location token expected => exact .token location token expected
  | unexpectedCharacter location allowed => exact .character location allowed
  | message text => exact .message text
  | pass error =>
    obtain ⟨fault, position⟩ := error
    cases fault with
    | code code =>
      refine .coded position ?_
      show (code, code.title) ∈ _
      cases code <;> decide
    | functionRedeclared name previous => exact .redeclared name previous position
    | unknown => exact .unknown position

end Failure

namespace Diagnostic

/-- The character of its line that a failure is at. -/
def PointsAt (d : Diagnostic) (c : Char) : Prop :=
  ∃ location text index, d.failure.location? = some location ∧
    IsLine d.source.toList location.line text ∧ location.column = index + 1 ∧
    text[index]? = some c

/-- The hint that goes with the code and the failure of a diagnostic. -/
inductive HasHint (d : Diagnostic) : String → Prop
  | ownText {text : String} (code : d.code = .unidentified) (words : d.failure.Says text) :
      HasHint d text
  | character {c : Char} (code : d.code = .invalidCharacter) (points : d.PointsAt c) :
      HasHint d ("`" ++ c.toString ++ "` is not allowed here")
  | noCharacter (code : d.code = .invalidCharacter) (nowhere : ∀ c, ¬d.PointsAt c) :
      HasHint d "`` is not allowed here"
  | token {location : Location} {token : String} {expected : List String}
      (code : d.code = .unexpectedToken)
      (failure : d.failure = .unexpectedToken location token expected) :
      HasHint d ("`" ++ token ++ "` is not allowed here. Allowed: " ++ ", ".intercalate expected)
  | noToken (code : d.code = .unexpectedToken)
      (other : ∀ location token expected, d.failure ≠ .unexpectedToken location token expected) :
      HasHint d "unexpected token"
  | declaration {name : String} {previous : Line} {position : Option Position}
      (code : d.code = .functionRedeclared)
      (failure : d.failure = .pass ⟨.functionRedeclared name previous, position⟩) :
      HasHint d
        ("Function `" ++ name ++ "` has already been declared at line " ++ previous.dotted)
  | noDeclaration (code : d.code = .functionRedeclared)
      (other : ∀ name previous position,
        d.failure ≠ .pass ⟨.functionRedeclared name previous, position⟩) :
      HasHint d "function already declared"
  | fixedText {text : String}
      (entry : (d.code, text) ∈ [
        (Code.blockExpectedBefore, "An indented block is required to be before here"),
        (.blockExpectedAfter, "An indented block is required to follow here"),
        (.unnecessaryColon, "There is an unnecessary colon at the end of the line"),
        (.functionMisspelt, "You have misspelt `function`"),
        (.assignmentIncomplete, "Missing value after `=`")])
      (plain : '\x7b' ∉ text.toList ∧ '\x7d' ∉ text.toList) :
      HasHint d text

variable {d : Diagnostic}

theorem pointsAt_iff {c : Char} :
    d.PointsAt c ↔
      (d.failure.location?.bind fun location => charAt? d.line location.column) = some c := by
  rw [Option.bind_eq_some_iff]
  constructor
  · rintro ⟨location, text, index, located, on, column, found⟩
    have line : d.line = .ofList text := by
      rw [Diagnostic.line, located]
      exact on.lineOf_eq
    refine ⟨location, located, ?_⟩
    rw [line, column, charAt?, String.toList_ofList]
    exact found
  · rintro ⟨location, located, found⟩
    have line : d.line = lineOf d.source location.line := by rw [Diagnostic.line, located]
    rw [line] at found
    cases column : location.column with
    | zero =>
      rw [column] at found
      cases found
    | succ index =>
      rw [column] at found
      exact ⟨location, _, index, located, isLine_lineOf .., column, found⟩

theorem character_of_pointsAt {c : Char} (points : d.PointsAt c) : d.character = c.toString := by
  rw [character, pointsAt_iff.1 points]

theorem character_of_nowhere (nowhere : ∀ c, ¬d.PointsAt c) : d.character = "" := by
  have none : (d.failure.location?.bind fun location => charAt? d.line location.column) = none :=
    Option.eq_none_iff_forall_ne_some.2 fun c found => nowhere c (pointsAt_iff.2 found)
  rw [character, none]

theorem hint_of_invalidCharacter (code : d.code = .invalidCharacter) :
    d.hint = "`" ++ d.character ++ "` is not allowed here" := by
  rw [← Code.fill_invalidCharacter]
  simp only [hint, code]

theorem HasHint.hint_eq {text : String} (h : d.HasHint text) : d.hint = text := by
  cases h with
  | ownText code words => simp only [hint, code, words.text_eq]
  | character code points => rw [hint_of_invalidCharacter code, character_of_pointsAt points]
  | noCharacter code nowhere =>
    rw [hint_of_invalidCharacter code, character_of_nowhere nowhere]
    rfl
  | token code failure =>
    rw [← Code.fill_unexpectedToken]
    simp only [hint, code, failure]
  | noToken code other =>
    simp only [hint, code]
    rfl
  | declaration code failure =>
    rw [← Code.fill_functionRedeclared]
    simp only [hint, code, failure]
  | noDeclaration code other =>
    simp only [hint, code]
    rfl
  | fixedText entry plain =>
    simp only [List.mem_cons, Prod.mk.injEq, List.not_mem_nil, or_false] at entry
    rcases entry with ⟨code, rfl⟩ | ⟨code, rfl⟩ | ⟨code, rfl⟩ | ⟨code, rfl⟩ | ⟨code, rfl⟩ <;>
      simp only [hint, code] <;> rfl

theorem exists_hasHint (d : Diagnostic) : ∃ text, d.HasHint text := by
  cases code : d.code with
  | unidentified => exact ⟨_, .ownText code d.failure.says_text⟩
  | invalidCharacter =>
    by_cases points : ∃ c, d.PointsAt c
    · obtain ⟨c, points⟩ := points
      exact ⟨_, .character code points⟩
    · exact ⟨_, .noCharacter code (not_exists.1 points)⟩
  | unexpectedToken =>
    by_cases parsed : ∃ location token expected, d.failure = .unexpectedToken location token expected
    · obtain ⟨location, token, expected, failure⟩ := parsed
      exact ⟨_, .token code failure⟩
    · simp only [not_exists] at parsed
      exact ⟨_, .noToken code parsed⟩
  | functionRedeclared =>
    by_cases declared : ∃ name previous position,
        d.failure = .pass ⟨.functionRedeclared name previous, position⟩
    · obtain ⟨name, previous, position, failure⟩ := declared
      exact ⟨_, .declaration code failure⟩
    · simp only [not_exists] at declared
      exact ⟨_, .noDeclaration code declared⟩
  | blockExpectedBefore | blockExpectedAfter | unnecessaryColon | functionMisspelt
  | assignmentIncomplete =>
    refine ⟨d.code.hintTemplate, .fixedText ?_ ?_⟩ <;> rw [code]
    · simp [Code.hintTemplate]
    · exact ⟨notMem_ofList (by decide), notMem_ofList (by decide)⟩

/-- Every diagnostic has one hint, and it is the one that goes with its code and failure. -/
theorem hasHint_iff (d : Diagnostic) (text : String) : d.HasHint text ↔ d.hint = text := by
  constructor
  · exact HasHint.hint_eq
  · rintro rfl
    obtain ⟨text, h⟩ := d.exists_hasHint
    rw [h.hint_eq]
    exact h

end Diagnostic

end ScriptFrontend
