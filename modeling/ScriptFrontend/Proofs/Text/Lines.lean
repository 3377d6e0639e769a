import ScriptFrontend.Text.LineTable

/-!
# The lines of a source are its pieces

A line table works with byte offsets. What it finds on a line can be said without any: the text is
cut at its newlines, and a carriage return at the end of a piece goes with the newline. The offsets
of a table are always ends of characters of the text that it was made from, so no lookup in that text
can fail for any other reason than that there is no such line.
-/

namespace ScriptFrontend.Text

/-- What stands on a numbered line of a text: nothing, if there is no such line. -/
inductive IsLine (text : List Char) : Nat → List Char → Prop
  | piece {index line} (cut : (text.splitOn '\n')[index]? = some line)
      (bare : line.getLast? ≠ some '\r') : IsLine text (index + 1) line
  | returned {index line} (cut : (text.splitOn '\n')[index]? = some (line ++ ['\r'])) :
      IsLine text (index + 1) line
  | missing {number} (outside : number = 0 ∨ (text.splitOn '\n').length < number) :
      IsLine text number []

/-! ## Carriage returns -/

@[simp] theorem dropCarriageReturn_concat (cs : List Char) :
    dropCarriageReturn (cs ++ ['\r']) = cs := by
  simp [dropCarriageReturn]

theorem dropCarriageReturn_of_bare {cs : List Char} (bare : cs.getLast? ≠ some '\r') :
    dropCarriageReturn cs = cs := by
  rw [dropCarriageReturn, if_neg bare]

theorem dropCarriageReturn_eq_iff {cs line : List Char} :
    dropCarriageReturn cs = line ↔ cs = line ++ ['\r'] ∨ cs = line ∧ line.getLast? ≠ some '\r' := by
  constructor
  · rintro rfl
    by_cases returned : cs.getLast? = some '\r'
    · obtain ⟨line, rfl⟩ := List.getLast?_eq_some_iff.1 returned
      exact .inl (by rw [dropCarriageReturn_concat])
    · have same := dropCarriageReturn_of_bare returned
      exact .inr ⟨same.symm, by rwa [same]⟩
  · rintro (rfl | ⟨rfl, bare⟩)
    · exact dropCarriageReturn_concat line
    · exact dropCarriageReturn_of_bare bare

theorem dropCarriageReturn_cons {c : Char} (h : c ≠ '\r') (cs : List Char) :
    dropCarriageReturn (c :: cs) = c :: dropCarriageReturn cs := by
  cases cs with
  | nil => simp [dropCarriageReturn, h]
  | cons d cs =>
    simp only [dropCarriageReturn, List.getLast?_cons_cons]
    split
    · simp
    · rfl

/-! ## Bytes -/

/-- How many bytes a text takes. -/
def byteLength : List Char → Nat
  | [] => 0
  | c :: cs => c.utf8Size + byteLength cs

@[simp] theorem byteLength_nil : byteLength [] = 0 := rfl

@[simp] theorem byteLength_cons (c : Char) (cs : List Char) :
    byteLength (c :: cs) = c.utf8Size + byteLength cs := rfl

@[simp] theorem byteLength_append (cs ds : List Char) :
    byteLength (cs ++ ds) = byteLength cs + byteLength ds := by
  induction cs with
  | nil => simp
  | cons c cs ih => rw [List.cons_append, byteLength_cons, ih, byteLength_cons, Nat.add_assoc]

theorem utf8ByteSize_ofList (cs : List Char) : (String.ofList cs).utf8ByteSize = byteLength cs := by
  induction cs with
  | nil => rfl
  | cons c cs ih =>
    have apart : String.ofList (c :: cs) = String.singleton c ++ String.ofList cs := by
      rw [String.singleton_eq_ofList, ← String.ofList_append]
      rfl
    rw [apart, String.utf8ByteSize_append, String.utf8ByteSize_singleton, ih, byteLength_cons]

/-- A count of bytes that has room for a character is not zero. -/
theorem exists_succ_eq_utf8Size_add (c : Char) (n : Nat) :
    ∃ k, c.utf8Size + n = k + 1 ∧ c.utf8Size ≤ k + 1 ∧ k + 1 - c.utf8Size = n := by
  have positive := c.utf8Size_pos
  exact ⟨c.utf8Size + n - 1, by omega, by omega, by omega⟩

theorem dropBytes?_cons (c : Char) (cs : List Char) (n : Nat) :
    dropBytes? (c :: cs) (c.utf8Size + n) = dropBytes? cs n := by
  obtain ⟨k, size, fits, rest⟩ := exists_succ_eq_utf8Size_add c n
  rw [size, dropBytes?, if_pos fits, rest]

theorem takeBytes?_cons (c : Char) (cs : List Char) (n : Nat) :
    takeBytes? (c :: cs) (c.utf8Size + n) = (takeBytes? cs n).map (c :: ·) := by
  obtain ⟨k, size, fits, rest⟩ := exists_succ_eq_utf8Size_add c n
  rw [size, takeBytes?, if_pos fits, rest]

theorem dropBytes?_append (before after : List Char) :
    dropBytes? (before ++ after) (byteLength before) = some after := by
  induction before with
  | nil => cases after <;> rfl
  | cons c before ih => rw [List.cons_append, byteLength_cons, dropBytes?_cons, ih]

theorem takeBytes?_append (line after : List Char) :
    takeBytes? (line ++ after) (byteLength line) = some line := by
  induction line with
  | nil => cases after <;> rfl
  | cons c line ih => rw [List.cons_append, byteLength_cons, takeBytes?_cons, ih, Option.map_some]

theorem slice?_append (before line after : List Char) :
    slice? (before ++ (line ++ after)) (byteLength before) (byteLength before + byteLength line)
      = some line := by
  have forward : ¬ byteLength before + byteLength line < byteLength before := by omega
  rw [slice?, if_neg forward, dropBytes?_append, Option.bind_some, Nat.add_sub_cancel_left,
    takeBytes?_append]

/-! ## Tables -/

theorem startsAfter_of_notMem {offset : Nat} {cs : List Char} (h : '\n' ∉ cs) :
    startsAfter offset cs = [] := by
  rw [← List.length_eq_zero_iff, count_startsAfter, List.count_eq_zero]
  exact h

theorem startsAfter_append_newline {offset : Nat} {line : List Char} (h : '\n' ∉ line)
    (after : List Char) :
    startsAfter offset (line ++ '\n' :: after)
      = (offset + byteLength line + 1) :: startsAfter (offset + byteLength line + 1) after := by
  induction line generalizing offset with
  | nil => rfl
  | cons c line ih =>
    simp only [List.mem_cons, not_or] at h
    have shifted : offset + c.utf8Size + byteLength line = offset + byteLength (c :: line) := by
      simp only [byteLength_cons]
      omega
    rw [List.cons_append, startsAfter, if_neg (Ne.symm h.1), ih h.2, shifted]

theorem length_splitOn_newline (cs : List Char) :
    (cs.splitOn '\n').length = cs.count '\n' + 1 := by
  induction cs with
  | nil => rfl
  | cons c cs ih =>
    rw [List.splitOn_cons_eq_if_modifyHead, List.count_cons]
    split
    · rw [List.length_cons, ih]
    · rw [List.length_modifyHead, ih, Nat.add_zero]

/-- What stands between two byte offsets of a text. -/
def Spans (text : List Char) (start stop : Nat) (piece : List Char) : Prop :=
  ∃ before after, text = before ++ (piece ++ after) ∧ start = byteLength before ∧
    stop = byteLength before + byteLength piece

theorem Spans.slice?_eq {text piece : List Char} {start stop : Nat}
    (h : Spans text start stop piece) : slice? text start stop = some piece := by
  obtain ⟨before, after, rfl, rfl, rfl⟩ := h
  exact slice?_append before piece after

namespace LineTable

/-- Where a line stops: in front of its newline, or at the end of the text. -/
def stop (m : LineTable) (source : String) (index : Nat) : Nat :=
  match m.starts[index + 1]? with
  | some next => next - 1
  | none => source.utf8ByteSize

/-- The lines after the first stop where they do in the table without the first. -/
theorem stop_cons (start : Nat) (starts : List Nat) (source : String) (index : Nat) :
    stop ⟨start :: starts⟩ source (index + 1) = stop ⟨starts⟩ source index := rfl

theorem line?_succ (m : LineTable) (source : String) (index : Nat) :
    m.line? source (index + 1) = m.starts[index]?.bind fun start =>
      (slice? source.toList start (m.stop source index)).bind fun piece =>
        some (.ofList (dropCarriageReturn piece)) := rfl

theorem line?_of_spans {m : LineTable} {source : String} {index start : Nat} {piece : List Char}
    (present : m.starts[index]? = some start)
    (spans : Spans source.toList start (m.stop source index) piece) :
    m.line? source (index + 1) = some (.ofList (dropCarriageReturn piece)) := by
  rw [line?_succ, present, Option.bind_some, spans.slice?_eq, Option.bind_some]

theorem line?_of_absent {m : LineTable} {source : String} {index : Nat}
    (absent : m.starts[index]? = none) : m.line? source (index + 1) = none := by
  rw [line?_succ, absent, Option.bind_none]

/-- A table that leaves out what comes before the rest of a text has an offset for every piece of
that rest, and the piece stands between the offset and where its line stops. -/
theorem exists_spans_startsAfter (before : List Char) {cs piece : List Char} {index : Nat}
    (cut : (cs.splitOn '\n')[index]? = some piece) :
    ∃ start, (byteLength before :: startsAfter (byteLength before) cs)[index]? = some start ∧
      Spans (before ++ cs) start
        (stop ⟨byteLength before :: startsAfter (byteLength before) cs⟩ (.ofList (before ++ cs)) index)
        piece := by
  -- Each step moves the first line and its newline from the rest to what comes before it.
  induction index generalizing before cs with
  | zero =>
    refine ⟨_, rfl, before, ?_⟩
    by_cases newline : '\n' ∈ cs
    · obtain ⟨line, after, rfl, whole⟩ := List.eq_append_cons_of_mem newline
      rw [List.splitOn_append_cons_self_of_not_mem whole] at cut
      cases cut
      exact ⟨'\n' :: after, rfl, rfl, by simp [stop, startsAfter_append_newline whole]⟩
    · rw [List.splitOn_eq_singleton newline] at cut
      cases cut
      exact ⟨[], by simp, rfl, by simp [stop, startsAfter_of_notMem newline, utf8ByteSize_ofList]⟩
  | succ index ih =>
    by_cases newline : '\n' ∈ cs
    · obtain ⟨line, after, rfl, whole⟩ := List.eq_append_cons_of_mem newline
      have next : byteLength (before ++ line ++ ['\n']) = byteLength before + byteLength line + 1 := by
        simp [show ('\n').utf8Size = 1 from rfl, Nat.add_assoc]
      rw [List.splitOn_append_cons_self_of_not_mem whole] at cut
      obtain ⟨start, present, spans⟩ := ih (before ++ line ++ ['\n']) cut
      rw [next] at present spans
      rw [startsAfter_append_newline whole]
      refine ⟨start, present, ?_⟩
      rw [stop_cons]
      simpa using spans
    · rw [List.splitOn_eq_singleton newline] at cut
      cases cut

theorem exists_spans {source : String} {index : Nat} {piece : List Char}
    (cut : (source.toList.splitOn '\n')[index]? = some piece) :
    ∃ start, (ofSource source).starts[index]? = some start ∧
      Spans source.toList start ((ofSource source).stop source index) piece := by
  simpa [ofSource] using exists_spans_startsAfter [] cut

/-- A text has as many lines as pieces. -/
theorem count_ofSource (source : String) :
    (ofSource source).count = (source.toList.splitOn '\n').length := by
  rw [length_splitOn_newline, ← count_startsAfter 0]
  rfl

theorem line?_ofSource (source : String) (index : Nat) :
    (ofSource source).line? source (index + 1)
      = (source.toList.splitOn '\n')[index]?.map fun piece => .ofList (dropCarriageReturn piece) := by
  cases cut : (source.toList.splitOn '\n')[index]? with
  | none =>
    rw [List.getElem?_eq_none_iff, ← count_ofSource] at cut
    exact line?_of_absent (List.getElem?_eq_none cut)
  | some piece =>
    obtain ⟨start, present, spans⟩ := exists_spans cut
    exact line?_of_spans present spans

end LineTable

theorem lineOf_zero (source : String) : lineOf source 0 = "" := rfl

theorem lineOf_succ (source : String) (index : Nat) :
    lineOf source (index + 1)
      = .ofList (((source.toList.splitOn '\n').map dropCarriageReturn)[index]?.getD []) := by
  rw [lineOf, LineTable.line?_ofSource, List.getElem?_map]
  cases (source.toList.splitOn '\n')[index]? <;> rfl

theorem IsLine.lineOf_eq {source : String} {number : Nat} {line : List Char}
    (h : IsLine source.toList number line) : lineOf source number = .ofList line := by
  cases h with
  | piece cut bare =>
    rw [lineOf_succ, List.getElem?_map, cut, Option.map_some, dropCarriageReturn_of_bare bare]
    rfl
  | returned cut =>
    rw [lineOf_succ, List.getElem?_map, cut, Option.map_some, dropCarriageReturn_concat]
    rfl
  | missing outside =>
    cases number with
    | zero => rfl
    | succ index =>
      have absent : (source.toList.splitOn '\n')[index]? = none :=
        List.getElem?_eq_none (by omega)
      rw [lineOf_succ, List.getElem?_map, absent]
      rfl

/-- Every number has a line in every source, and the table finds it. -/
theorem isLine_lineOf (source : String) (number : Nat) :
    IsLine source.toList number (lineOf source number).toList := by
  cases number with
  | zero => exact .missing (.inl rfl)
  | succ index =>
    rw [lineOf_succ, String.toList_ofList, List.getElem?_map]
    cases cut : (source.toList.splitOn '\n')[index]? with
    | none => exact .missing (.inr (Nat.lt_succ_of_le (List.getElem?_eq_none_iff.1 cut)))
    | some piece =>
      rw [Option.map_some, Option.getD_some]
      generalize eq : dropCarriageReturn piece = line
      rcases dropCarriageReturn_eq_iff.1 eq with rfl | ⟨rfl, bare⟩
      · exact .returned cut
      · exact .piece cut bare

/-! ## Newlines -/

theorem notMem_of_mem_splitOn {a : Char} {text piece : List Char} (h : piece ∈ text.splitOn a) :
    a ∉ piece := by
  induction text generalizing piece with
  | nil =>
    rw [List.splitOn_nil, List.mem_singleton] at h
    simp [h]
  | cons c text ih =>
    rw [List.splitOn_cons_eq_if_modifyHead] at h
    split at h
    · rcases List.mem_cons.1 h with rfl | h
      · simp
      · exact ih h
    · rename_i other
      cases pieces : text.splitOn a with
      | nil => exact absurd pieces (by simp)
      | cons first rest =>
        rw [pieces, List.modifyHead_cons] at h
        rcases List.mem_cons.1 h with rfl | h
        · have whole : a ∉ first := ih (pieces ▸ List.mem_cons_self)
          simp only [beq_iff_eq] at other
          simp [whole, Ne.symm other]
        · exact ih (pieces ▸ List.mem_cons_of_mem _ h)

theorem IsLine.newline_notMem {text line : List Char} {number : Nat}
    (h : IsLine text number line) : '\n' ∉ line := by
  cases h with
  | piece cut bare => exact notMem_of_mem_splitOn (List.mem_of_getElem? cut)
  | returned cut =>
    intro mem
    exact notMem_of_mem_splitOn (List.mem_of_getElem? cut) (List.mem_append_left _ mem)
  | missing outside => simp

/-! ## Line endings -/

/-- A text with a carriage return in front of each newline. -/
def withReturns (text : List Char) : List Char :=
  text.flatMap fun c => if c = '\n' then ['\r', '\n'] else [c]

theorem withReturns_newline (text : List Char) :
    withReturns ('\n' :: text) = ['\r'] ++ '\n' :: withReturns text := rfl

theorem withReturns_cons {c : Char} (h : c ≠ '\n') (text : List Char) :
    withReturns (c :: text) = c :: withReturns text := by
  simp [withReturns, h]

theorem map_dropCarriageReturn_modifyHead {c : Char} (h : c ≠ '\r') (pieces : List (List Char)) :
    (pieces.modifyHead (c :: ·)).map dropCarriageReturn
      = (pieces.map dropCarriageReturn).modifyHead (c :: ·) := by
  cases pieces with
  | nil => rfl
  | cons piece pieces => simp [dropCarriageReturn_cons h]

/-- The two texts have the same pieces but for the carriage returns at their ends. -/
theorem map_dropCarriageReturn_splitOn_withReturns {text : List Char} (bare : '\r' ∉ text) :
    ((withReturns text).splitOn '\n').map dropCarriageReturn
      = (text.splitOn '\n').map dropCarriageReturn := by
  induction text with
  | nil => rfl
  | cons c text ih =>
    simp only [List.mem_cons, not_or] at bare
    by_cases newline : c = '\n'
    · have whole : '\n' ∉ ['\r'] := by decide
      rw [newline, withReturns_newline, List.splitOn_append_cons_self_of_not_mem whole,
        List.splitOn_cons_eq_if_modifyHead]
      simpa [dropCarriageReturn] using ih bare.2
    · rw [withReturns_cons newline, List.splitOn_cons_eq_if_modifyHead,
        List.splitOn_cons_eq_if_modifyHead, if_neg (by simpa using newline),
        if_neg (by simpa using newline), map_dropCarriageReturn_modifyHead (Ne.symm bare.1),
        map_dropCarriageReturn_modifyHead (Ne.symm bare.1), ih bare.2]

theorem lineOf_withReturns {source : String} (bare : '\r' ∉ source.toList) (number : Nat) :
    lineOf (.ofList (withReturns source.toList)) number = lineOf source number := by
  cases number with
  | zero => rw [lineOf_zero, lineOf_zero]
  | succ index =>
    rw [lineOf_succ, lineOf_succ, String.toList_ofList,
      map_dropCarriageReturn_splitOn_withReturns bare]

end ScriptFrontend.Text
