import ScriptFrontend.Diagnostic.Intent
import ScriptFrontend.Proofs.Text.Edits
import ScriptFrontend.Proofs.Text.Words

/-!
# What the guesses by text say of a line

Each of the guesses that are made from the text of a line holds exactly of the lines of one form, and
the form is stated here without trimming, splitting or counting.
-/

namespace ScriptFrontend.Intent

open Text

/-- The line ends in an equals sign. In front of it is something that is not blank, and not a
character that makes it part of a comparison. -/
def LacksValue (line : List Char) : Prop :=
  ∃ before, EndsIn '=' line before ∧ (∃ c ∈ before, isBlank c = false) ∧
    ∀ c, before.getLast? = some c → c ∉ ['=', '!', '<', '>']

/-- The line ends in a colon. -/
def HasStrayColon (line : List Char) : Prop := ∃ before, EndsIn ':' line before

/-- The line begins with a word other than `function`, which is two edits or fewer from it and not
too short, or which is followed by the word `returns`. -/
def MisspellsFunction (line : List Char) : Prop :=
  ∃ before word after, FirstWordAt line before word after ∧ word ≠ "function".toList ∧
    ((3 ≤ word.length ∧ ∃ n ≤ 2, EditsTo n word "function".toList) ∨
      ∃ between rest, WordAt after between "returns".toList rest)

theorem endsInAssignment_iff {line : List Char} :
    endsInAssignment (.ofList line) ↔ LacksValue line := by
  have solid : isBlank '=' = false := by decide
  rw [endsInAssignment, String.toList_ofList]
  constructor
  · intro h
    split at h
    · rename_i before reversed
      have trimmed : trimEnd line = before.reverse ++ ['='] := by
        rw [← List.reverse_reverse (trimEnd line), reversed, List.reverse_cons]
      simp only [Bool.and_eq_true, Bool.not_eq_true', List.any_eq_true] at h
      obtain ⟨notCompared, c, mem, notBlank⟩ := h
      refine ⟨before.reverse, (endsIn_iff solid).2 trimmed, ⟨c, by simpa using mem, notBlank⟩, ?_⟩
      intro d last
      rw [List.getLast?_reverse] at last
      simpa [last] using notCompared
    · cases h
  · rintro ⟨before, ends, ⟨c, mem, notBlank⟩, notCompared⟩
    rw [(endsIn_iff solid).1 ends, List.reverse_append, List.reverse_singleton,
      List.singleton_append]
    simp only [Bool.and_eq_true, Bool.not_eq_true', List.any_eq_true, List.head?_reverse]
    refine ⟨?_, c, by simpa using mem, notBlank⟩
    cases last : before.getLast? with
    | none => rfl
    | some d => simpa using notCompared d last

theorem endsInColon_iff {line : List Char} : endsInColon (.ofList line) ↔ HasStrayColon line := by
  have solid : isBlank ':' = false := by decide
  rw [endsInColon, String.toList_ofList, beq_iff_eq, List.getLast?_eq_some_iff]
  exact exists_congr fun before => (endsIn_iff solid).symm

theorem misspellsFunction_iff {line : List Char} :
    MisspellsFunction line ↔
      ∃ word rest, words line = word :: rest ∧ word ≠ "function".toList ∧
        ((3 ≤ word.length ∧ ∃ n ≤ 2, EditsTo n word "function".toList) ∨
          "returns".toList ∈ rest) := by
  constructor
  · rintro ⟨before, word, after, first, other, how⟩
    exact ⟨word, words after, first.words_eq, other, how.imp_right mem_words_iff.2⟩
  · rintro ⟨word, rest, split, other, how⟩
    obtain ⟨before, after, first, rfl⟩ := words_eq_cons_iff.1 split
    exact ⟨before, word, after, first, other, how.imp_right mem_words_iff.1⟩

theorem ofList_eq_iff {cs : List Char} {s : String} : String.ofList cs = s ↔ cs = s.toList := by
  rw [← String.ofList_inj, String.ofList_toList]

theorem isMisspelling_function_iff {word : List Char} (other : word ≠ "function".toList) :
    isMisspelling (.ofList word) "function" ↔
      3 ≤ word.length ∧ ∃ n ≤ 2, EditsTo n word "function".toList := by
  have limit : tolerance "function".length = 2 := by decide
  rw [isMisspelling_iff, limit, String.length_ofList, String.toList_ofList]
  exact and_iff_right (mt ofList_eq_iff.1 other)

theorem contains_returns_iff {ws : List (List Char)} :
    (ws.map String.ofList).contains "returns" ↔ "returns".toList ∈ ws := by
  simp [List.mem_map, ofList_eq_iff]

theorem opensMisspeltFunction_iff {line : List Char} :
    opensMisspeltFunction (.ofList line) ↔ MisspellsFunction line := by
  rw [misspellsFunction_iff, opensMisspeltFunction, String.toList_ofList]
  cases words line with
  | nil => simp
  | cons word rest =>
    simp only [List.map_cons, Bool.and_eq_true, Bool.or_eq_true, bne_iff_ne, ne_eq, ofList_eq_iff,
      contains_returns_iff]
    constructor
    · rintro ⟨other, how⟩
      exact ⟨word, rest, rfl, other, how.imp_left (isMisspelling_function_iff other).1⟩
    · rintro ⟨_, _, eq, other, how⟩
      obtain ⟨rfl, rfl⟩ := List.cons.inj eq
      exact ⟨other, how.imp_left (isMisspelling_function_iff other).2⟩

/-! ## Blanks around a line -/

section Surrounded

variable {u v line : List Char} (blank : ∀ c ∈ u, isBlank c) (blank' : ∀ c ∈ v, isBlank c)
include blank blank'

theorem lacksValue_surrounded_iff : LacksValue (u ++ line ++ v) ↔ LacksValue line := by
  have solid : isBlank '=' = false := by decide
  -- What is not blank in front of the mark stands in the line itself, and so does the last of it.
  have last (inner : List Char) (some : ∃ c ∈ inner, isBlank c = false) :
      (u ++ inner).getLast? = inner.getLast? := by
    obtain ⟨c, mem, -⟩ := some
    have ne_nil := List.ne_nil_of_mem mem
    rw [List.getLast?_append, List.getLast?_eq_some_getLast ne_nil, Option.some_or]
  constructor
  · intro ⟨before, ends, ⟨c, mem, notBlank⟩, notCompared⟩
    obtain ⟨inner, rfl, own⟩ := (endsIn_surrounded_iff solid blank blank').1 ends
    have within : ∃ c ∈ inner, isBlank c = false := by
      rcases List.mem_append.1 mem with outside | inside
      · cases notBlank.symm.trans (blank c outside)
      · exact ⟨c, inside, notBlank⟩
    rw [last inner within] at notCompared
    exact ⟨inner, own, within, notCompared⟩
  · intro ⟨inner, ends, within, notCompared⟩
    rw [← last inner within] at notCompared
    obtain ⟨c, mem, notBlank⟩ := within
    exact ⟨u ++ inner, (endsIn_surrounded_iff solid blank blank').2 ⟨inner, rfl, ends⟩,
      ⟨c, List.mem_append_right u mem, notBlank⟩, notCompared⟩

theorem hasStrayColon_surrounded_iff : HasStrayColon (u ++ line ++ v) ↔ HasStrayColon line := by
  have solid : isBlank ':' = false := by decide
  constructor
  · intro ⟨before, ends⟩
    obtain ⟨inner, -, own⟩ := (endsIn_surrounded_iff solid blank blank').1 ends
    exact ⟨inner, own⟩
  · intro ⟨inner, ends⟩
    exact ⟨u ++ inner, (endsIn_surrounded_iff solid blank blank').2 ⟨inner, rfl, ends⟩⟩

theorem misspellsFunction_surrounded_iff :
    MisspellsFunction (u ++ line ++ v) ↔ MisspellsFunction line := by
  rw [misspellsFunction_iff, misspellsFunction_iff, words_surrounded blank blank']

theorem endsInAssignment_surrounded :
    endsInAssignment (.ofList (u ++ line ++ v)) = endsInAssignment (.ofList line) := by
  rw [Bool.eq_iff_iff, endsInAssignment_iff, endsInAssignment_iff]
  exact lacksValue_surrounded_iff blank blank'

theorem endsInColon_surrounded :
    endsInColon (.ofList (u ++ line ++ v)) = endsInColon (.ofList line) := by
  rw [Bool.eq_iff_iff, endsInColon_iff, endsInColon_iff]
  exact hasStrayColon_surrounded_iff blank blank'

theorem opensMisspeltFunction_surrounded :
    opensMisspeltFunction (.ofList (u ++ line ++ v)) = opensMisspeltFunction (.ofList line) := by
  rw [Bool.eq_iff_iff, opensMisspeltFunction_iff, opensMisspeltFunction_iff]
  exact misspellsFunction_surrounded_iff blank blank'

end Surrounded

theorem not_hasStrayColon_of_lacksValue {line : List Char} (lacks : LacksValue line) :
    ¬HasStrayColon line := by
  intro ⟨before', colon⟩
  obtain ⟨before, equals, -⟩ := lacks
  have trimmed := (endsIn_iff (by decide)).1 equals
  rw [(endsIn_iff (by decide)).1 colon] at trimmed
  have marks := congrArg List.getLast? trimmed
  rw [List.getLast?_concat, List.getLast?_concat] at marks
  cases marks

/-- The guesses by text are the same for a line with blanks around it, of whatever kind the blanks
are; and no line is taken both for an assignment and for one with a stray colon. -/
theorem byText_surrounded (line : String) :
    (∀ u v : String, (∀ c ∈ u.toList, isBlank c) → (∀ c ∈ v.toList, isBlank c) →
      byText.assigns (u ++ line ++ v) = byText.assigns line ∧
      byText.hasStrayColon (u ++ line ++ v) = byText.hasStrayColon line ∧
      byText.declaresFunction (u ++ line ++ v) = byText.declaresFunction line) ∧
    ¬(byText.assigns line ∧ byText.hasStrayColon line) := by
  obtain ⟨cs, rfl⟩ : ∃ cs, line = .ofList cs := ⟨line.toList, String.ofList_toList.symm⟩
  simp only [byText]
  constructor
  · intro u v blank blank'
    have whole : u ++ .ofList cs ++ v = .ofList (u.toList ++ cs ++ v.toList) := by
      rw [String.ofList_append, String.ofList_append, String.ofList_toList, String.ofList_toList]
    rw [whole]
    exact ⟨endsInAssignment_surrounded blank blank', endsInColon_surrounded blank blank',
      opensMisspeltFunction_surrounded blank blank'⟩
  · intro ⟨assigns, stray⟩
    exact not_hasStrayColon_of_lacksValue (endsInAssignment_iff.1 assigns) (endsInColon_iff.1 stray)

/-- An ideographic space in front of the line, and a line separator and a tab after it. -/
theorem byText_surrounded_separated :
    (∀ c ∈ "\u3000".toList, isBlank c) ∧ (∀ c ∈ "\u2028\t".toList, isBlank c) ∧
      byText.assigns "a.b =" ∧ byText.assigns ("\u3000" ++ "a.b =" ++ "\u2028\t") := by
  have blank : ∀ c ∈ "\u3000".toList, isBlank c := List.all_eq_true.1 (by decide)
  have blank' : ∀ c ∈ "\u2028\t".toList, isBlank c := List.all_eq_true.1 (by decide)
  have assigns : byText.assigns "a.b =" := by decide
  obtain ⟨same, -, -⟩ := (byText_surrounded "a.b =").1 _ _ blank blank'
  exact ⟨blank, blank', assigns, same.trans assigns⟩

end ScriptFrontend.Intent
