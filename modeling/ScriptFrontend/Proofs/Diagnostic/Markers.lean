import ScriptFrontend.Proofs.Diagnostic.Hint
import ScriptFrontend.Proofs.Diagnostic.Locality
import ScriptFrontend.Proofs.Line.Dotted

/-!
# The characters above the markers

The markers of a highlight are placed by counting: past the number of the line, the gutter and the
columns in front. The character that a failure is about is found by its column in the text of the
line. Here it is shown that the two agree, wherever the column is and however long the number: the
first marker stands below the character that the hint and the code are about, and below nothing if
the column is past the end of the line.
-/

namespace ScriptFrontend

open Text

/-- How many characters a location covers: those from its column up to its end column, and still one
where that would be none or where there is no end column. -/
inductive Location.Covers : Location → Nat → Prop
  | point (line column : Nat) : Covers ⟨line, column, none⟩ 1
  | empty (line : Nat) {column stop : Nat} (behind : stop ≤ column) :
      Covers ⟨line, column, some stop⟩ 1
  | span (line column : Nat) {count : Nat} (positive : 0 < count) :
      Covers ⟨line, column, some (column + count)⟩ count

theorem Location.covers_width (l : Location) : l.Covers l.width := by
  obtain ⟨line, column, endColumn⟩ := l
  cases endColumn with
  | none => exact .point line column
  | some stop =>
    simp only [width]
    rcases Nat.lt_or_ge column stop with beyond | behind
    · have count : max 1 (stop - column) = stop - column := by omega
      have stop_eq : column + (stop - column) = stop := by omega
      have span := Covers.span line column (Nat.sub_pos_of_lt beyond)
      rwa [stop_eq, ← count] at span
    · rw [Nat.sub_eq_zero_of_le behind]
      exact .empty line behind

/-! ## What a failure is about -/

theorem Diagnostic.character_of_located {d : Diagnostic} {l : Location}
    (located : d.failure.location? = some l) :
    d.character = .ofList (charAt? (lineOf d.source l.line) l.column).toList := by
  simp only [character, line, located, Option.bind_some]
  cases charAt? (lineOf d.source l.line) l.column <;> rfl

theorem Failure.exists_nameStart_of_characterCode {intent : Intent} {line : String} {column : Nat}
    {allowed : Option (List String)}
    (code : characterCode intent line column allowed = .blockExpectedBefore) :
    ∃ c, charAt? line column = some c ∧ (c = '_' ∨ isLetter c) := by
  unfold characterCode at code
  split at code
  · cases code
  · split at code
    · cases code
    · split at code
      · rename_i starts
        obtain ⟨-, starts⟩ := Bool.and_eq_true_iff.1 starts
        obtain ⟨c, found, start⟩ := (Option.any_eq_true ..).1 starts
        exact ⟨c, found, by simpa [isNameStart] using start⟩
      · cases code

namespace Excerpt

/-! ## Rows -/

/-- The first row of a highlight. -/
def row (source : String) (l : Location) : List Char :=
  (toString l.line ++ gutter ++ lineOf source l.line).toList

theorem toList_highlight (source name : String) (t : Terminal) (l : Location) :
    (highlight ⟨source, name, false⟩ t l).toList
      = row source l ++ '\n' :: (List.replicate (indent l) ' ' ++ List.replicate l.width '^') := by
  simp [highlight, row, markers]

theorem newline_notMem_row (source : String) (l : Location) : '\n' ∉ row source l := by
  have number : '\n' ∉ Nat.toDigits 10 l.line := notMem_toDigits (by decide) l.line
  have line : '\n' ∉ (lineOf source l.line).toList := (isLine_lineOf source l.line).newline_notMem
  have gap : '\n' ∉ gutter.toList := by decide
  simp [row, number, line, gap]

theorem splitOn_highlight (source name : String) (t : Terminal) (l : Location) :
    (highlight ⟨source, name, false⟩ t l).toList.splitOn '\n'
      = [row source l, List.replicate (indent l) ' ' ++ List.replicate l.width '^'] := by
  rw [toList_highlight, List.splitOn_append_cons_self_of_not_mem (newline_notMem_row source l),
    List.splitOn_eq_singleton]
  simp

theorem indent_eq (l : Location) :
    indent l = (toString l.line ++ gutter).toList.length + (l.column - 1) := by
  simp only [indent, String.length_toList, String.length_append]

theorem getElem?_row (source : String) {l : Location} (counted : 1 ≤ l.column) :
    (row source l)[indent l]? = charAt? (lineOf source l.line) l.column := by
  rw [row, String.toList_append, indent_eq, List.getElem?_append_right (Nat.le_add_right ..),
    Nat.add_sub_cancel_left]
  cases column : l.column with
  | zero => omega
  | succ index => rfl

theorem length_row_le_indent_iff (source : String) {l : Location} (counted : 1 ≤ l.column) :
    (row source l).length ≤ indent l ↔ (lineOf source l.line).length < l.column := by
  rw [row, String.toList_append, List.length_append, indent_eq, ← String.length_toList]
  omega

/-- A highlight is two rows, and the first marker of the second row stands below the character that
is at the column of the line. It is that character which a hint quotes, or which begins a name. -/
theorem character_above_markers (source name : String) (t : Terminal) {l : Location}
    (counted : 1 ≤ l.column) :
    ∃ row index count,
      (highlight ⟨source, name, false⟩ t l).toList.splitOn '\n'
        = [row, List.replicate index ' ' ++ List.replicate count '^'] ∧
      l.Covers count ∧
      row[index]? = charAt? (lineOf source l.line) l.column ∧
      (row.length ≤ index ↔ (lineOf source l.line).length < l.column) ∧
      ∀ intent path settings allowed d,
        d = Diagnostic.ofFailureAt intent source path settings (.unexpectedCharacter l allowed) →
          (d.code = .invalidCharacter →
            d.hint = "`" ++ String.ofList row[index]?.toList ++ "` is not allowed here") ∧
          (d.code = .blockExpectedBefore → ∃ c, row[index]? = some c ∧ (c = '_' ∨ isLetter c)) := by
  refine ⟨row source l, indent l, l.width, splitOn_highlight source name t l, l.covers_width,
    getElem?_row source counted, length_row_le_indent_iff source counted, ?_⟩
  rintro intent path settings allowed d rfl
  rw [getElem?_row source counted, Diagnostic.ofFailureAt_eq]
  constructor
  · intro code
    rw [Diagnostic.hint_of_invalidCharacter code, Diagnostic.character_of_located rfl]
  · exact Failure.exists_nameStart_of_characterCode

/-- Two digits before the gutter, and a character of two bytes before the one that is marked. -/
def twelveLines : String := String.ofList (List.replicate 11 '\n') ++ "é $"

theorem character_above_markers_twelve :
    let l : Location := ⟨12, 3, none⟩
    let d := Diagnostic.ofFailureAt (.constant false false false) twelveLines none .plain
      (.unexpectedCharacter l none)
    1 ≤ l.column ∧ d.code = .invalidCharacter ∧
      ∃ row index, (highlight ⟨twelveLines, "story", false⟩ .initial l).toList.splitOn '\n'
        = [row, List.replicate index ' ' ++ ['^']] ∧
        row[index]? = some '$' ∧ d.hint = "`$` is not allowed here" := by
  intro l d
  have counted : 1 ≤ l.column := by decide
  have code : d.code = .invalidCharacter := by decide +kernel
  obtain ⟨row, index, count, rows, covers, above, -, shown⟩ :=
    character_above_markers twelveLines "story" .initial counted
  have marked : row[index]? = some '$' := above.trans (by decide +kernel)
  obtain rfl : count = 1 := by
    change Location.Covers ⟨12, 3, none⟩ count at covers
    cases covers
    rfl
  refine ⟨counted, code, row, index, rows, marked, ?_⟩
  rw [(shown _ _ _ _ d rfl).1 code, marked]
  decide

end Excerpt

end ScriptFrontend
