import ScriptFrontend.Proofs.Text.Lines

/-!
# The offsets of a line table

A line table counts bytes, and its ranges are cut out of a text in UTF-8. In a character that takes
several bytes none of them is below 128, so the bytes of newlines are the newline bytes, and the
offsets behind them are ends of characters. No range of a table that is applied to its own text
reaches past the end of the text or cuts a character.
-/

namespace ScriptFrontend.Text

/-! ## Newline bytes -/

/-- The offsets right behind the newline bytes, counted from `offset`. -/
def startsInBytes (offset : Nat) (bytes : List UInt8) : List Nat :=
  (bytes.zipIdx offset).filterMap fun (byte, index) => if byte = 10 then some (index + 1) else none

theorem startsInBytes_append (offset : Nat) (as bs : List UInt8) :
    startsInBytes offset (as ++ bs)
      = startsInBytes offset as ++ startsInBytes (offset + as.length) bs := by
  rw [startsInBytes, List.zipIdx_append, List.filterMap_append]
  rfl

theorem startsInBytes_of_notMem {bytes : List UInt8} (h : 10 ∉ bytes) (offset : Nat) :
    startsInBytes offset bytes = [] := by
  refine List.filterMap_eq_nil_iff.2 fun (byte, index) mem => if_neg ?_
  rintro rfl
  exact h (List.fst_mem_of_mem_zipIdx mem)

private theorem newline_ne_ofNat {n : Nat} (fits : n < 256) (ne : n ≠ 10) : 10 ≠ UInt8.ofNat n := by
  intro same
  have value := congrArg UInt8.toNat same
  rw [UInt8.toNat_ofNat_of_lt' fits] at value
  exact ne value.symm

theorem newline_notMem_utf8EncodeChar {c : Char} (h : c ≠ '\n') :
    10 ∉ String.utf8EncodeChar c := by
  have ne : c.val.toNat ≠ 10 := fun same => h (Char.ext (UInt32.toNat_inj.1 same))
  fun_cases String.utf8EncodeChar c <;>
    simp only [List.mem_cons, List.not_mem_nil, or_false, not_or]
  case case1 => exact newline_ne_ofNat (by omega) ne
  -- In the other cases the high bit of every byte is set.
  all_goals
    repeat' apply And.intro
    all_goals exact newline_ne_ofNat (by omega) (by omega)

/-- Counting through the bytes of a text finds the offsets that counting through its characters
finds. -/
theorem startsAfter_eq_startsInBytes (offset : Nat) (cs : List Char) :
    startsAfter offset cs = startsInBytes offset (cs.flatMap String.utf8EncodeChar) := by
  induction cs generalizing offset with
  | nil => rfl
  | cons c cs ih =>
    rw [List.flatMap_cons, startsInBytes_append, String.length_utf8EncodeChar, ← ih, startsAfter]
    by_cases newline : c = '\n'
    · rw [if_pos newline, newline]
      rfl
    · rw [if_neg newline, startsInBytes_of_notMem (newline_notMem_utf8EncodeChar newline),
        List.nil_append]

theorem flatMap_utf8EncodeChar_toList (source : String) :
    source.toList.flatMap String.utf8EncodeChar = source.toByteArray.data.toList := by
  rw [← String.utf8Encode_toList, List.utf8Encode, List.toList_data_toByteArray]

/-! ## Ranges -/

namespace Spans

variable {source : String} {start stop : Nat} {piece : List Char}

theorem le (h : Spans source.toList start stop piece) : start ≤ stop := by
  obtain ⟨before, after, -, rfl, rfl⟩ := h
  exact Nat.le_add_right ..

theorem isValid_start (h : Spans source.toList start stop piece) :
    (⟨start⟩ : String.Pos.Raw).IsValid source := by
  obtain ⟨before, after, text, rfl, -⟩ := h
  rw [String.Pos.Raw.isValid_iff_exists_append]
  refine ⟨.ofList before, .ofList (piece ++ after), ?_, ?_⟩
  · rw [← String.ofList_append, ← text, String.ofList_toList]
  · rw [String.Pos.Raw.ext_iff, String.byteIdx_rawEndPos, utf8ByteSize_ofList]

/-- The empty piece stands where another one stops. -/
theorem at_stop (h : Spans source.toList start stop piece) : Spans source.toList stop stop [] := by
  obtain ⟨before, after, text, -, rfl⟩ := h
  exact ⟨before ++ piece, after, by simpa using text, by simp, by simp⟩

end Spans

namespace LineTable

theorem line?_eq_none_iff {source : String} {number : Nat} :
    (ofSource source).line? source number = none ↔
      number = 0 ∨ (ofSource source).count < number := by
  cases number with
  | zero => simp [line?]
  | succ index =>
    rw [line?_ofSource, Option.map_eq_none_iff, List.getElem?_eq_none_iff, ← count_ofSource]
    omega

theorem line?_eq_some_iff {source line : String} {number : Nat} :
    (ofSource source).line? source number = some line ↔
      ∃ index piece, number = index + 1 ∧ (source.toList.splitOn '\n')[index]? = some piece ∧
        (piece = line.toList ++ ['\r'] ∨
          piece = line.toList ∧ line.toList.getLast? ≠ some '\r') := by
  cases number with
  | zero => simp [line?]
  | succ index =>
    rw [line?_ofSource, Option.map_eq_some_iff]
    constructor
    · rintro ⟨piece, cut, rfl⟩
      refine ⟨index, piece, rfl, cut, dropCarriageReturn_eq_iff.1 ?_⟩
      rw [String.toList_ofList]
    · rintro ⟨_, piece, next, cut, same⟩
      cases next
      refine ⟨piece, cut, ?_⟩
      rw [dropCarriageReturn_eq_iff.2 same, String.ofList_toList]

theorem exists_spans_of_start {source : String} {index start : Nat}
    (present : (ofSource source).starts[index]? = some start) :
    ∃ piece, Spans source.toList start ((ofSource source).stop source index) piece := by
  have within : index < (source.toList.splitOn '\n').length := by
    rw [← count_ofSource]
    exact (List.getElem?_eq_some_iff.1 present).1
  obtain ⟨start', present', spans⟩ := exists_spans (List.getElem?_eq_getElem within)
  cases present.symm.trans present'
  exact ⟨_, spans⟩

/-- What a line table reads off the text that it was made from. Lines start at the first byte and
behind each newline byte, so there is one more of them than of newlines. The numbers from 1 to that
count have a line, which is the piece at its place when the text is cut at every newline, less one
carriage return at its end. And every line is a range of the text that starts and stops between
characters, so it can always be cut out. -/
theorem lines_of_source (source : String) :
    (ofSource source).starts = 0 :: startsInBytes 0 source.toByteArray.data.toList ∧
      (ofSource source).count = source.toList.count '\n' + 1 ∧
      (∀ number, (ofSource source).line? source number = none ↔
        number = 0 ∨ (ofSource source).count < number) ∧
      (∀ number line, (ofSource source).line? source number = some line ↔
        ∃ index piece, number = index + 1 ∧ (source.toList.splitOn '\n')[index]? = some piece ∧
          (piece = line.toList ++ ['\r'] ∨
            piece = line.toList ∧ line.toList.getLast? ≠ some '\r')) ∧
      ∀ index start, (ofSource source).starts[index]? = some start →
        start ≤ (ofSource source).stop source index ∧
          (⟨start⟩ : String.Pos.Raw).IsValid source ∧
          (⟨(ofSource source).stop source index⟩ : String.Pos.Raw).IsValid source ∧
          (slice? source.toList start ((ofSource source).stop source index)).isSome := by
  refine ⟨?_, ?_, fun _ => line?_eq_none_iff, fun _ _ => line?_eq_some_iff, ?_⟩
  · rw [← flatMap_utf8EncodeChar_toList, ← startsAfter_eq_startsInBytes]
    rfl
  · rw [count_ofSource, length_splitOn_newline]
  · intro index start present
    obtain ⟨piece, spans⟩ := exists_spans_of_start present
    exact ⟨spans.le, spans.isValid_start, spans.at_stop.isValid_start,
      Option.isSome_of_eq_some spans.slice?_eq⟩

end LineTable

end ScriptFrontend.Text
