import ScriptFrontend.Diagnostic.Report

/-!
# What the message of a report for tools calls the file

A report for tools names the file twice, under a key of its own and in the header of its message. The
first name follows the settings of the diagnostic. The second follows plain settings, which leave out
the directory as well as the colour, so a directory that is set shortens only the first.
-/

namespace ScriptFrontend

/-- The value under a key, in an object that has the key. -/
def Json.get? : Json → String → Option Json
  | .obj fields, key => field? fields key
  | _, _ => none

namespace Excerpt

private theorem enclosed_eq_iff {before after s₁ s₂ : String} :
    before ++ s₁ ++ after = before ++ s₂ ++ after ↔ s₁ = s₂ := by
  rw [String.append_left_inj, String.append_right_inj]

theorem header_of_not_coloured {source name : String} {t : Terminal} {l : Location} :
    header ⟨source, name, false⟩ t l
      = "Error: syntax error in " ++ name ++ s!" at line {l.line}, column {l.column}" := by
  unfold header
  rw [if_neg Bool.false_ne_true]

/-- A report without colour depends on the name by its header alone. -/
theorem report_eq_report_iff {source name₁ name₂ : String} {t : Terminal} {l : Location}
    {code hint : String} :
    report ⟨source, name₁, false⟩ t l code hint = report ⟨source, name₂, false⟩ t l code hint ↔
      name₁ = name₂ := by
  have highlights : highlight ⟨source, name₁, false⟩ t l = highlight ⟨source, name₂, false⟩ t l := by
    simp only [highlight, markers]
  have headers : header ⟨source, name₁, false⟩ t l = header ⟨source, name₂, false⟩ t l ↔
      name₁ = name₂ := by
    rw [header_of_not_coloured, header_of_not_coloured]
    exact enclosed_eq_iff
  unfold report
  rw [highlights]
  simp only [String.append_left_inj, headers]

end Excerpt

namespace Diagnostic

variable (d : Diagnostic) (t : Terminal)

/-- Whether the path of the source file is shown alike in the directory of the settings, where they
have one, and under plain settings. -/
def ShownAlike : Prop :=
  ∀ path directory, d.path = some path → d.settings.directory = some directory →
    SourcePath.shownIn directory path = Settings.plain.shownPath t path

@[simp] theorem location_withSettings (s : Settings) :
    (d.withSettings s).failure.location? = d.failure.location? := rfl

theorem name_withSettings {s₁ s₂ : Settings} (same : s₁.directory = s₂.directory) :
    (d.withSettings s₁).name t = (d.withSettings s₂).name t := by
  cases d with
  | mk failure source path settings code =>
      cases path with
      | none => rfl
      | some path =>
          show s₁.shownPath t path = s₂.shownPath t path
          rw [Settings.shownPath, same, Settings.shownPath]

theorem name_plain_eq_iff : (d.withSettings .plain).name t = d.name t ↔ d.ShownAlike t := by
  obtain ⟨failure, source, path, ⟨colour, directory⟩, code⟩ := d
  cases path with
  | none => simp [ShownAlike, name, withSettings]
  | some path =>
      cases directory with
      | none => simp [ShownAlike, name, withSettings, Settings.shownPath, Settings.plain]
      | some directory =>
          have shown (t : Terminal) :
              Settings.shownPath ⟨colour, some directory⟩ t path
                = SourcePath.shownIn directory path := rfl
          simp only [ShownAlike, name, withSettings, shown, Option.some.injEq]
          constructor
          · rintro alike _ _ rfl rfl
            exact alike.symm
          · intro alike
            exact (alike path directory rfl rfl).symm

theorem message_of_not_located {s : Settings} (unlocated : d.failure.location? = none) :
    (d.withSettings s).message t = d.failure.text := by
  simp [message, unlocated, withSettings]

theorem message_of_never {s : Settings} {l : Location} (never : s.colour = .never)
    (located : d.failure.location? = some l) :
    (d.withSettings s).message t
      = Excerpt.report ⟨d.source, (d.withSettings s).name t, false⟩ t l d.code.number d.hint := by
  have uncoloured : (d.withSettings s).settings.usesColour t = false := by
    simp [withSettings, Settings.usesColour, never]
  rw [message, location_withSettings, located]
  simp only [uncoloured]
  rfl

theorem get?_message :
    (d.toJson t).get? "message" = some (.str ((d.withSettings .plain).message t)) := by
  cases located : d.failure.location? <;>
    simp [toJson, Json.get?, Json.field?, located, List.lookup_cons]

theorem get?_file : (d.toJson t).get? "file" = some (.str (d.name t)) := by
  simp [toJson, Json.get?, Json.field?, List.lookup_cons]

/-- The message of a report is that of the diagnostic without colour, unless the failure has a place
and the directory of the settings shows the path in another way than plain settings do. In that
case the header of the message and the field for the file name the file differently. -/
theorem report_message_eq_iff :
    ∃ text, (d.toJson t).get? "message" = some (.str text) ∧
      (d.toJson t).get? "file" = some (.str (d.name t)) ∧
      (text = (d.withSettings { d.settings with colour := .never }).message t ↔
        d.failure.location? = none ∨ d.ShownAlike t) ∧
      ∀ l, d.failure.location? = some l →
        ∃ named, text = Excerpt.report ⟨d.source, named, false⟩ t l d.code.number d.hint ∧
          (named = d.name t ↔ d.ShownAlike t) := by
  refine ⟨_, d.get?_message t, d.get?_file t, ?_, ?_⟩
  · cases located : d.failure.location? with
    | none => simp only [message_of_not_located d t located, true_or]
    | some l =>
        have own : (d.withSettings { d.settings with colour := .never }).name t = d.name t :=
          name_withSettings d t rfl
        rw [message_of_never d t rfl located, message_of_never d t rfl located, own,
          Excerpt.report_eq_report_iff, name_plain_eq_iff]
        simp only [reduceCtorEq, false_or]
  · intro l located
    exact ⟨_, message_of_never d t rfl located, d.name_plain_eq_iff t⟩

/-- A directory that differs from the working directory is enough. -/
example : SourcePath.shownIn "/stories" "/stories/a.story"
    ≠ Settings.plain.shownPath .initial "/stories/a.story" := by decide +kernel

end Diagnostic

end ScriptFrontend
