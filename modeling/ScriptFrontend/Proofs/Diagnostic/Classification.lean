import ScriptFrontend.Diagnostic.Classification
import ScriptFrontend.Proofs.Diagnostic.Intent
import ScriptFrontend.Proofs.Text.Lines

/-!
# The code of a failure

The rules by which a failure gets its code, stated for what stands on its line and without the table
of lines, the trimming and the distances that the classification computes with. Classification gives
a failure the code that the rules give it, and no other.
-/

namespace ScriptFrontend.Failure

open Text Intent

/-- The first of some rules whose condition holds gives the code; if there is none, `otherwise`
does. -/
inductive FirstRule (otherwise : Code) : List (Prop × Code) → Code → Prop
  | applies {condition : Prop} {code : Code} {rules : List (Prop × Code)} (holds : condition) :
      FirstRule otherwise ((condition, code) :: rules) code
  | passed {condition : Prop} {code result : Code} {rules : List (Prop × Code)}
      (fails : ¬condition) (rest : FirstRule otherwise rules result) :
      FirstRule otherwise ((condition, code) :: rules) result
  | none : FirstRule otherwise [] otherwise

/-- Nothing but an indentation was expected, whose name may have underscores in front. -/
def OnlyIndent (expected : List String) : Prop :=
  ∃ n, expected = [.ofList (List.replicate n '_' ++ "INDENT".toList)]

/-- The character at a column can begin a name. -/
def NameStartAt (text : List Char) (column : Nat) : Prop :=
  ∃ index c, column = index + 1 ∧ text[index]? = some c ∧ (c = '_' ∨ isLetter c)

/-- The code that the rules give to a failure in a source. -/
inductive HasCode (source : String) : Failure → Code → Prop
  | token {location : Location} {token : String} {expected : List String} {line : List Char}
      {code : Code} (on : IsLine source.toList location.line line)
      (rule : FirstRule .unexpectedToken
        [(LacksValue line, .assignmentIncomplete),
          (HasStrayColon line, .unnecessaryColon),
          (OnlyIndent expected, .blockExpectedAfter)] code) :
      HasCode source (.unexpectedToken location token expected) code
  | character {location : Location} {allowed : Option (List String)} {line : List Char}
      {code : Code} (on : IsLine source.toList location.line line)
      (rule : FirstRule .invalidCharacter
        [(MisspellsFunction line, .functionMisspelt),
          (HasStrayColon line, .unnecessaryColon),
          (allowed = none ∧ NameStartAt line location.column, .blockExpectedBefore)] code) :
      HasCode source (.unexpectedCharacter location allowed) code
  | coded (code : Code) (position : Option Position) :
      HasCode source (.pass ⟨.code code, position⟩) code
  | redeclared (name : String) (previous : Line) (position : Option Position) :
      HasCode source (.pass ⟨.functionRedeclared name previous, position⟩) .functionRedeclared
  | unknown (position : Option Position) : HasCode source (.pass ⟨.unknown, position⟩) .unidentified
  | message (text : String) : HasCode source (.message text) .unidentified

theorem firstRule_nil_iff {otherwise code : Code} :
    FirstRule otherwise [] code ↔ otherwise = code := by
  constructor
  · intro h
    cases h
    rfl
  · rintro rfl
    exact .none

/-- A rule whose condition can be tested is a branch. -/
theorem firstRule_cons_iff {otherwise code result : Code} {condition : Prop} {test : Bool}
    {rules : List (Prop × Code)} (tests : test ↔ condition) :
    FirstRule otherwise ((condition, code) :: rules) result ↔
      if test then code = result else FirstRule otherwise rules result := by
  cases test with
  | false =>
    have fails : ¬condition := mt tests.2 Bool.false_ne_true
    constructor
    · intro h
      cases h with
      | applies holds => exact absurd holds fails
      | passed _ rest => exact rest
    · exact .passed fails
  | true =>
    have holds : condition := tests.1 rfl
    constructor
    · intro h
      cases h with
      | applies _ => rfl
      | passed fails _ => exact absurd holds fails
    · rintro rfl
      exact .applies holds

theorem expectsOnlyIndent_iff {expected : List String} :
    expectsOnlyIndent expected ↔ OnlyIndent expected := by
  constructor
  · intro h
    match expected, h with
    | [only], h =>
      have name : only.toList.dropWhile (· == '_') = "INDENT".toList := by
        simpa [expectsOnlyIndent] using h
      have underscores : only.toList.takeWhile (· == '_')
          = List.replicate (only.toList.takeWhile (· == '_')).length '_' := by
        refine List.eq_replicate_iff.2 ⟨rfl, fun c mem => ?_⟩
        simpa using List.all_eq_true.1 List.all_takeWhile c mem
      refine ⟨(only.toList.takeWhile (· == '_')).length, ?_⟩
      rw [← underscores, ← name, List.takeWhile_append_dropWhile, String.ofList_toList]
  · rintro ⟨n, rfl⟩
    have underscores : ∀ c ∈ List.replicate n '_', (c == '_') = true := by simp
    rw [expectsOnlyIndent, String.toList_ofList, List.dropWhile_append_of_pos underscores]
    decide

theorem any_isNameStart_iff {line : List Char} {column : Nat} :
    (charAt? (.ofList line) column).any isNameStart ↔ NameStartAt line column := by
  cases column with
  | zero => simp [charAt?, NameStartAt]
  | succ index =>
    simp only [charAt?, String.toList_ofList, Option.any_eq_true, NameStartAt, isNameStart,
      Bool.or_eq_true, beq_iff_eq, Nat.succ.injEq]
    constructor
    · rintro ⟨c, found, starts⟩
      exact ⟨index, c, rfl, found, starts⟩
    · rintro ⟨_, c, rfl, found, starts⟩
      exact ⟨c, found, starts⟩

theorem tokenCode_eq_iff {line : List Char} {expected : List String} {code : Code} :
    tokenCode .byText (.ofList line) expected = code ↔
      FirstRule .unexpectedToken
        [(LacksValue line, .assignmentIncomplete),
          (HasStrayColon line, .unnecessaryColon),
          (OnlyIndent expected, .blockExpectedAfter)] code := by
  rw [firstRule_cons_iff endsInAssignment_iff, firstRule_cons_iff endsInColon_iff,
    firstRule_cons_iff expectsOnlyIndent_iff, firstRule_nil_iff, tokenCode]
  simp only [apply_ite (· = code)]
  rfl

theorem characterCode_eq_iff {line : List Char} {column : Nat} {allowed : Option (List String)}
    {code : Code} :
    characterCode .byText (.ofList line) column allowed = code ↔
      FirstRule .invalidCharacter
        [(MisspellsFunction line, .functionMisspelt),
          (HasStrayColon line, .unnecessaryColon),
          (allowed = none ∧ NameStartAt line column, .blockExpectedBefore)] code := by
  have unconstrained : (allowed.isNone && (charAt? (.ofList line) column).any isNameStart) ↔
      allowed = none ∧ NameStartAt line column := by
    rw [Bool.and_eq_true, Option.isNone_iff_eq_none, any_isNameStart_iff]
  rw [firstRule_cons_iff opensMisspeltFunction_iff, firstRule_cons_iff endsInColon_iff,
    firstRule_cons_iff unconstrained, firstRule_nil_iff, characterCode]
  simp only [apply_ite (· = code)]
  rfl

/-- Classification follows the rules. -/
theorem hasCode_iff (source : String) (failure : Failure) (code : Code) :
    HasCode source failure code ↔ failure.classify .byText source = code := by
  cases failure with
  | unexpectedToken location token expected =>
    constructor
    · rintro (⟨on, rule⟩ | _)
      rw [classify, on.lineOf_eq]
      exact tokenCode_eq_iff.2 rule
    · intro classified
      refine .token (isLine_lineOf source location.line) (tokenCode_eq_iff.1 ?_)
      rwa [String.ofList_toList]
  | unexpectedCharacter location allowed =>
    constructor
    · rintro (_ | ⟨on, rule⟩)
      rw [classify, on.lineOf_eq]
      exact characterCode_eq_iff.2 rule
    · intro classified
      refine .character (isLine_lineOf source location.line) (characterCode_eq_iff.1 ?_)
      rwa [String.ofList_toList]
  | pass error =>
    obtain ⟨fault, position⟩ := error
    constructor
    · intro h
      cases h <;> rfl
    · rintro rfl
      cases fault with
      | code code => exact .coded code position
      | functionRedeclared name previous => exact .redeclared name previous position
      | unknown => exact .unknown position
  | message text =>
    constructor
    · intro h
      cases h
      rfl
    · rintro rfl
      exact .message text

end ScriptFrontend.Failure
