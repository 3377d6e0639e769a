import ScriptFrontend.Diagnostic.Report
import ScriptFrontend.Proofs.Text.Lines

/-!
# A diagnostic sees one line of its source

A diagnostic looks at its source text through the line of its failure and in no other way. So two
diagnostics of failures that are alike, on lines that are alike, differ in the numbers of the lines
only, whatever else the two sources hold; and a diagnostic does not change with the line endings of
its source, since no line holds any of them.
-/

namespace ScriptFrontend

open Text

/-! ## Forms of reports -/

/-- A report whose line has no number yet. -/
structure ReportForm where
  /-- The name of the file, in the style in which it is shown. -/
  name : String
  column : Nat
  line : String
  /-- How far the markers are indented, not counting the number of the line. -/
  indent : Nat
  markers : String
  /-- The code and the hint. -/
  conclusion : String

namespace ReportForm

/-- The line behind its number, and the markers below it. -/
def highlight (form : ReportForm) (number : Nat) : String :=
  toString number ++ "|    " ++ form.line ++ "\n" ++
    String.ofList (List.replicate ((toString number).length + form.indent) ' ') ++ form.markers

/-- The report with the number of its line filled in. -/
def fill (form : ReportForm) (number : Nat) : String :=
  "Error: syntax error in " ++ form.name ++ s!" at line {number}, column {form.column}" ++ "\n\n" ++
    form.highlight number ++ "\n\n" ++ form.conclusion

end ReportForm

namespace Excerpt

/-- The report of an excerpt without the number of its line. -/
def form (e : Excerpt) (t : Terminal) (l : Location) (code hint : String) : ReportForm where
  name := if e.coloured then t.styled .bold e.name else e.name
  column := l.column
  line := lineOf e.source l.line
  indent := gutter.length + (l.column - 1)
  markers := e.markers t l
  conclusion := code ++ ": " ++ hint

theorem highlight_eq_form (e : Excerpt) (t : Terminal) (l : Location) (code hint : String) :
    e.highlight t l = (e.form t l code hint).highlight l.line := by
  rw [highlight, indent, Nat.add_assoc]
  rfl

theorem report_eq_fill (e : Excerpt) (t : Terminal) (l : Location) (code hint : String) :
    e.report t l code hint = (e.form t l code hint).fill l.line := by
  have grouped (before : String) :
      before ++ code ++ ": " ++ hint = before ++ (code ++ ": " ++ hint) := by
    simp only [String.append_assoc]
  rw [report, highlight_eq_form e t l code hint]
  exact grouped _

theorem form_eq_of_lineOf_eq {s₁ s₂ name : String} {coloured : Bool} {n₁ n₂ column : Nat}
    {endColumn : Option Nat} (same : lineOf s₁ n₁ = lineOf s₂ n₂) (t : Terminal)
    (code hint : String) :
    form ⟨s₁, name, coloured⟩ t ⟨n₁, column, endColumn⟩ code hint
      = form ⟨s₂, name, coloured⟩ t ⟨n₂, column, endColumn⟩ code hint := by
  rw [form, form, same]
  rfl

end Excerpt

/-! ## Alike failures on alike lines -/

/-- Two failures of the parser, or two of the lexer, that are on lines of their own and otherwise
the same. -/
inductive Failure.AlikeOn (n₁ n₂ : Nat) : Failure → Failure → Prop
  | token (column : Nat) (endColumn : Option Nat) (token : String) (expected : List String) :
      AlikeOn n₁ n₂ (.unexpectedToken ⟨n₁, column, endColumn⟩ token expected)
        (.unexpectedToken ⟨n₂, column, endColumn⟩ token expected)
  | character (column : Nat) (endColumn : Option Nat) (allowed : Option (List String)) :
      AlikeOn n₁ n₂ (.unexpectedCharacter ⟨n₁, column, endColumn⟩ allowed)
        (.unexpectedCharacter ⟨n₂, column, endColumn⟩ allowed)

namespace Failure

variable {intent : Intent} {s₁ s₂ : String} {n₁ n₂ : Nat} {f₁ f₂ : Failure}

theorem AlikeOn.exists_location (alike : AlikeOn n₁ n₂ f₁ f₂) :
    ∃ column endColumn, f₁.location? = some ⟨n₁, column, endColumn⟩ ∧
      f₂.location? = some ⟨n₂, column, endColumn⟩ := by
  cases alike with
  | token column endColumn => exact ⟨column, endColumn, rfl, rfl⟩
  | character column endColumn => exact ⟨column, endColumn, rfl, rfl⟩

theorem AlikeOn.classify_eq (alike : AlikeOn n₁ n₂ f₁ f₂) (same : lineOf s₁ n₁ = lineOf s₂ n₂) :
    f₁.classify intent s₁ = f₂.classify intent s₂ := by
  cases alike with
  | token => rw [classify, classify, same]
  | character => rw [classify, classify, same]

theorem tokenCode_ne_unidentified (line : String) (expected : List String) :
    tokenCode intent line expected ≠ .unidentified := by
  unfold tokenCode
  repeat' split
  all_goals nofun

theorem characterCode_ne_unidentified (line : String) (column : Nat)
    (allowed : Option (List String)) :
    characterCode intent line column allowed ≠ .unidentified := by
  unfold characterCode
  repeat' split
  all_goals nofun

/-- The parser and the lexer only make failures that get a code. -/
theorem AlikeOn.classify_ne_unidentified (alike : AlikeOn n₁ n₂ f₁ f₂) :
    f₁.classify intent s₁ ≠ .unidentified := by
  cases alike with
  | token => exact tokenCode_ne_unidentified _ _
  | character => exact characterCode_ne_unidentified _ _ _

end Failure

namespace Diagnostic

variable {s₁ s₂ : String} {path : Option String} {settings : Settings} {code : Code}

/-- A failure in the source of a path, if it has one, that is reported under given settings. -/
def ofFailureAt (intent : Intent) (source : String) (path : Option String) (settings : Settings)
    (failure : Failure) : Diagnostic :=
  { ofFailure intent source failure with path, settings }

theorem ofFailureAt_eq (intent : Intent) (source : String) (path : Option String)
    (settings : Settings) (failure : Failure) :
    ofFailureAt intent source path settings failure
      = ⟨failure, source, path, settings, failure.classify intent source⟩ := rfl

/-- The form of the report on a diagnostic whose failure is at a location. -/
def form (d : Diagnostic) (t : Terminal) (l : Location) : ReportForm :=
  Excerpt.form ⟨d.source, d.name t, d.settings.usesColour t⟩ t l d.code.number d.hint

theorem message_eq_fill (d : Diagnostic) (t : Terminal) {l : Location}
    (located : d.failure.location? = some l) : d.message t = (d.form t l).fill l.line := by
  rw [message, located]
  exact Excerpt.report_eq_fill ..

section Alike

variable {n₁ n₂ : Nat} {f₁ f₂ : Failure}

theorem character_eq_of_alikeOn (alike : f₁.AlikeOn n₁ n₂ f₂)
    (same : lineOf s₁ n₁ = lineOf s₂ n₂) :
    character ⟨f₁, s₁, path, settings, code⟩ = character ⟨f₂, s₂, path, settings, code⟩ := by
  obtain ⟨column, endColumn, located₁, located₂⟩ := alike.exists_location
  simp only [character, line, located₁, located₂, same, Option.bind_some]

/-- Only the hint of a failure without a code could name its line. -/
theorem hint_eq_of_alikeOn (alike : f₁.AlikeOn n₁ n₂ f₂) (same : lineOf s₁ n₁ = lineOf s₂ n₂)
    (identified : code ≠ .unidentified) :
    hint ⟨f₁, s₁, path, settings, code⟩ = hint ⟨f₂, s₂, path, settings, code⟩ := by
  have character : character ⟨f₁, s₁, path, settings, code⟩
      = character ⟨f₂, s₂, path, settings, code⟩ := character_eq_of_alikeOn alike same
  cases code with
  | unidentified => contradiction
  | invalidCharacter => simp only [hint, character]
  | _ => cases alike <;> rfl

/-- The form of a report is the same for alike failures on alike lines. -/
theorem exists_form_of_alikeOn (alike : f₁.AlikeOn n₁ n₂ f₂) (same : lineOf s₁ n₁ = lineOf s₂ n₂)
    (identified : code ≠ .unidentified) (t : Terminal) :
    ∃ form : ReportForm, form.line = lineOf s₁ n₁ ∧
      message ⟨f₁, s₁, path, settings, code⟩ t = form.fill n₁ ∧
      message ⟨f₂, s₂, path, settings, code⟩ t = form.fill n₂ := by
  obtain ⟨column, endColumn, located₁, located₂⟩ := alike.exists_location
  have hints : hint ⟨f₁, s₁, path, settings, code⟩ = hint ⟨f₂, s₂, path, settings, code⟩ :=
    hint_eq_of_alikeOn alike same identified
  have forms : form ⟨f₁, s₁, path, settings, code⟩ t ⟨n₁, column, endColumn⟩
      = form ⟨f₂, s₂, path, settings, code⟩ t ⟨n₂, column, endColumn⟩ := by
    rw [form, form, hints]
    exact Excerpt.form_eq_of_lineOf_eq same t ..
  refine ⟨form ⟨f₁, s₁, path, settings, code⟩ t ⟨n₁, column, endColumn⟩, rfl,
    message_eq_fill _ t located₁, ?_⟩
  rw [forms]
  exact message_eq_fill _ t located₂

/-- Of a source, only the line of the failure counts, and of the line only its text. -/
theorem reports_alike_of_isLine (intent : Intent) (path : Option String) (settings : Settings)
    {text : List Char} (on₁ : IsLine s₁.toList n₁ text) (on₂ : IsLine s₂.toList n₂ text)
    (alike : f₁.AlikeOn n₁ n₂ f₂) :
    (ofFailureAt intent s₁ path settings f₁).code = (ofFailureAt intent s₂ path settings f₂).code ∧
      (ofFailureAt intent s₁ path settings f₁).hint
        = (ofFailureAt intent s₂ path settings f₂).hint ∧
      ∀ t, ∃ form : ReportForm, form.line = .ofList text ∧
        (ofFailureAt intent s₁ path settings f₁).message t = form.fill n₁ ∧
        (ofFailureAt intent s₂ path settings f₂).message t = form.fill n₂ := by
  have same : lineOf s₁ n₁ = lineOf s₂ n₂ := on₁.lineOf_eq.trans on₂.lineOf_eq.symm
  have codes : f₁.classify intent s₁ = f₂.classify intent s₂ := alike.classify_eq same
  have identified : f₂.classify intent s₂ ≠ .unidentified := codes ▸ alike.classify_ne_unidentified
  rw [ofFailureAt_eq, ofFailureAt_eq, codes]
  refine ⟨rfl, hint_eq_of_alikeOn alike same identified, fun t => ?_⟩
  obtain ⟨form, shown, filled₁, filled₂⟩ := exists_form_of_alikeOn alike same identified t
  exact ⟨form, shown.trans on₁.lineOf_eq, filled₁, filled₂⟩

/-- The second line of one source and the only line of another hold the same text, with a line ending
in the one and none in the other. -/
theorem reports_alike_of_isLine_returned :
    IsLine "ü =\r\né $\r\n".toList 2 ['é', ' ', '$'] ∧ IsLine "é $".toList 1 ['é', ' ', '$'] ∧
      Failure.AlikeOn 2 1 (.unexpectedCharacter ⟨2, 3, none⟩ none)
        (.unexpectedCharacter ⟨1, 3, none⟩ none) ∧
      ∃ form : ReportForm, form.line = .ofList ['é', ' ', '$'] ∧
        (ofFailureAt .byText "ü =\r\né $\r\n" none .plain
          (.unexpectedCharacter ⟨2, 3, none⟩ none)).message .initial = form.fill 2 ∧
        (ofFailureAt .byText "é $" none .plain
          (.unexpectedCharacter ⟨1, 3, none⟩ none)).message .initial = form.fill 1 := by
  have on₁ : IsLine "ü =\r\né $\r\n".toList 2 ['é', ' ', '$'] := .returned (by decide)
  have on₂ : IsLine "é $".toList 1 ['é', ' ', '$'] := .piece (by decide) (by decide)
  have alike : Failure.AlikeOn 2 1 (.unexpectedCharacter ⟨2, 3, none⟩ none)
      (.unexpectedCharacter ⟨1, 3, none⟩ none) := .character 3 none none
  obtain ⟨-, -, forms⟩ := reports_alike_of_isLine .byText none .plain on₁ on₂ alike
  exact ⟨on₁, on₂, alike, forms .initial⟩

end Alike

/-! ## Line endings -/

/-- Two diagnostics that read the same in every way. -/
structure ReadsAs (d e : Diagnostic) : Prop where
  code : d.code = e.code
  hint : d.hint = e.hint
  line : d.line = e.line
  message (t : Terminal) : d.message t = e.message t
  shortMessage : d.shortMessage = e.shortMessage
  report (t : Terminal) : d.report t = e.report t

section Lines

variable (same : ∀ number, lineOf s₁ number = lineOf s₂ number)

include same

theorem classify_eq_of_lineOf_eq (intent : Intent) (failure : Failure) :
    failure.classify intent s₁ = failure.classify intent s₂ := by
  cases failure with
  | unexpectedToken => rw [Failure.classify, Failure.classify, same]
  | unexpectedCharacter => rw [Failure.classify, Failure.classify, same]
  | pass => rfl
  | message => rfl

variable (d : Diagnostic)

theorem line_eq_of_lineOf_eq : line { d with source := s₁ } = line { d with source := s₂ } := by
  simp only [line, same]

theorem hint_eq_of_lineOf_eq : hint { d with source := s₁ } = hint { d with source := s₂ } := by
  simp only [hint, character, line_eq_of_lineOf_eq same]

theorem message_eq_of_lineOf_eq (t : Terminal) :
    message { d with source := s₁ } t = message { d with source := s₂ } t := by
  cases located : d.failure.location? with
  | none => simp only [message, located]
  | some l =>
    have forms : form { d with source := s₁ } t l = form { d with source := s₂ } t l := by
      rw [form, form, hint_eq_of_lineOf_eq same]
      exact Excerpt.form_eq_of_lineOf_eq (same l.line) t ..
    rw [message_eq_fill { d with source := s₁ } t located, forms]
    exact (message_eq_fill { d with source := s₂ } t located).symm

theorem toJson_eq_of_lineOf_eq (t : Terminal) :
    toJson { d with source := s₁ } t = toJson { d with source := s₂ } t := by
  have messages : message (withSettings { d with source := s₁ } .plain) t
      = message (withSettings { d with source := s₂ } .plain) t :=
    message_eq_of_lineOf_eq same (d.withSettings .plain) t
  have names : name { d with source := s₁ } t = name { d with source := s₂ } t := rfl
  rw [toJson, toJson, messages, names, hint_eq_of_lineOf_eq same]
  simp only [locationToJson, line_eq_of_lineOf_eq same]

theorem readsAs_of_lineOf_eq (intent : Intent) (failure : Failure) :
    ReadsAs (ofFailureAt intent s₁ path settings failure)
      (ofFailureAt intent s₂ path settings failure) := by
  rw [ofFailureAt_eq, ofFailureAt_eq, classify_eq_of_lineOf_eq same]
  generalize failure.classify intent s₂ = code
  have hints := hint_eq_of_lineOf_eq same ⟨failure, s₂, path, settings, code⟩
  exact {
    code := rfl
    hint := hints
    line := line_eq_of_lineOf_eq same ⟨failure, s₂, path, settings, code⟩
    message := message_eq_of_lineOf_eq same ⟨failure, s₂, path, settings, code⟩
    shortMessage := congrArg (code.number ++ ": " ++ ·) hints
    report := fun t => congrArg Json.pretty
      (toJson_eq_of_lineOf_eq same ⟨failure, s₂, path, settings, code⟩ t) }

end Lines

/-- The line endings of a source do not show in any reading of a diagnostic. -/
theorem readsAs_withReturns (intent : Intent) {source : String} (bare : '\r' ∉ source.toList)
    (path : Option String) (settings : Settings) (failure : Failure) :
    ReadsAs (ofFailureAt intent (.ofList (withReturns source.toList)) path settings failure)
      (ofFailureAt intent source path settings failure) :=
  readsAs_of_lineOf_eq (lineOf_withReturns bare) intent failure

theorem readsAs_withReturns_two_lines :
    '\r' ∉ "x =\nfoo bar".toList ∧
      ReadsAs
        (ofFailureAt .byText "x =\r\nfoo bar" (some "/a.story") .plain
          (.unexpectedCharacter ⟨2, 5, some 8⟩ none))
        (ofFailureAt .byText "x =\nfoo bar" (some "/a.story") .plain
          (.unexpectedCharacter ⟨2, 5, some 8⟩ none)) := by
  have bare : '\r' ∉ "x =\nfoo bar".toList := by decide
  have returned : String.ofList (withReturns "x =\nfoo bar".toList) = "x =\r\nfoo bar" := by decide
  exact ⟨bare, returned ▸ readsAs_withReturns .byText bare ..⟩

end Diagnostic

end ScriptFrontend
