import ScriptFrontend.Tree.Outline

/-!
# Reading an outline back

An outline has no brackets. It is cut into rows at its newlines, a row shows how deep its node is by
the blanks in front of it, and a node holds the rows below it up to the next one that is no deeper
than itself. A row with a blank inside is a token's, since no name has one. So the rows can be read
back if every name is the name of something: the tree is then known, but for the lines and columns
of its tokens, which an outline does not show.
-/

namespace ScriptFrontend

/-- A name that a row shows as one word. -/
structure IsName (name : String) : Prop where
  ne_empty : name ≠ ""
  space_notMem : ' ' ∉ name.toList
  newline_notMem : '\n' ∉ name.toList

instance (name : String) : Decidable (IsName name) :=
  decidable_of_iff (name ≠ "" ∧ ' ' ∉ name.toList ∧ '\n' ∉ name.toList)
    ⟨fun ⟨nonempty, space, newline⟩ => ⟨nonempty, space, newline⟩,
      fun h => ⟨h.ne_empty, h.space_notMem, h.newline_notMem⟩⟩

namespace Child

/-- Children whose tags and token kinds are names, and whose token values are each on one line. -/
inductive Named : List Child → Prop
  | nil : Named []
  | token {t : Token} {rest : List Child} (kind : IsName t.kind) (value : '\n' ∉ t.value.toList)
      (after : Named rest) : Named (.token t :: rest)
  | tree {tag : String} {inner rest : List Child} (name : IsName tag) (below : Named inner)
      (after : Named rest) : Named (.tree tag inner :: rest)

/-- Children of the same shape, with the same tags and with tokens of the same kinds and values. The
tokens may be on other lines and in other columns. -/
inductive Alike : List Child → List Child → Prop
  | nil : Alike [] []
  | token {s t : Token} {cs ds : List Child} (kind : s.kind = t.kind) (value : s.value = t.value)
      (after : Alike cs ds) : Alike (.token s :: cs) (.token t :: ds)
  | tree {tag : String} {inner inner' cs ds : List Child} (below : Alike inner inner')
      (after : Alike cs ds) : Alike (.tree tag inner :: cs) (.tree tag inner' :: ds)

@[simp] theorem rowsAll_nil (depth : Nat) : rowsAll depth [] = [] := rfl

@[simp] theorem rowsAll_token (depth : Nat) (t : Token) (rest : List Child) :
    rowsAll depth (.token t :: rest) = ⟨depth, t.kind ++ " " ++ t.value⟩ :: rowsAll depth rest := rfl

@[simp] theorem rowsAll_tree (depth : Nat) (tag : String) (inner rest : List Child) :
    rowsAll depth (.tree tag inner :: rest) =
      ⟨depth, tag⟩ :: (rowsAll (depth + 1) inner ++ rowsAll depth rest) := rfl

end Child

/-! ### From the text to its rows -/

namespace Row

/-- A row as it stands in the text, without its newline. -/
def line (r : Row) : List Char := List.replicate (2 * r.depth) ' ' ++ r.text.toList

/-- The text of a row ends with the row, and does not begin with more indentation. -/
structure Readable (r : Row) : Prop where
  newline_notMem : '\n' ∉ r.text.toList
  starts : ∃ c rest, r.text.toList = c :: rest ∧ c ≠ ' '

theorem toList_render (r : Row) : r.render.toList = r.line ++ ['\n'] := by
  simp [render, line]

theorem newline_notMem_line {r : Row} (readable : r.Readable) : '\n' ∉ r.line := by
  simp [line, readable.newline_notMem]

/-- The blanks in front of a row are its indentation, and no part of its text. -/
theorem eq_of_line_eq {r r' : Row} (readable : r.Readable) (readable' : r'.Readable)
    (same : r.line = r'.line) : r = r' := by
  obtain ⟨depth, text⟩ := r
  obtain ⟨depth', text'⟩ := r'
  have unindented {row : Row} (readable : row.Readable) :
      row.line.dropWhile (· == ' ') = row.text.toList := by
    obtain ⟨c, rest, start, solid⟩ := readable.starts
    rw [line, List.dropWhile_append_of_pos (by simp), start, List.dropWhile_cons_of_neg (by simpa)]
  have text_eq : text.toList = text'.toList := by
    rw [← unindented readable, ← unindented readable', same]
  have depth_eq : 2 * depth = 2 * depth' := by
    have blanks : List.replicate (2 * depth) ' ' = List.replicate (2 * depth') ' ' := by
      rw [line, line, text_eq] at same
      exact List.append_cancel_right same
    simpa using congrArg List.length blanks
  rw [String.toList_inj.1 text_eq, Nat.eq_of_mul_eq_mul_left (by decide) depth_eq]

theorem splitOn_join_render {rows : List Row} (readable : ∀ r ∈ rows, r.Readable) :
    (String.join (rows.map render)).toList.splitOn '\n' = rows.map line ++ [[]] := by
  induction rows with
  | nil => rfl
  | cons r rows ih =>
    obtain ⟨own, later⟩ := List.forall_mem_cons.1 readable
    rw [List.map_cons, String.join_cons, String.toList_append, toList_render, List.append_assoc,
      List.singleton_append, List.splitOn_append_cons_self_of_not_mem (newline_notMem_line own),
      ih later, List.map_cons, List.cons_append]

theorem eq_of_map_line_eq {rows rows' : List Row} (readable : ∀ r ∈ rows, r.Readable)
    (readable' : ∀ r ∈ rows', r.Readable) (lines : rows.map line = rows'.map line) :
    rows = rows' := by
  induction rows generalizing rows' with
  | nil => rw [List.map_eq_nil_iff.1 lines.symm]
  | cons r rows ih =>
    cases rows' with
    | nil => cases lines
    | cons r' rows' =>
      obtain ⟨own, later⟩ := List.forall_mem_cons.1 readable
      obtain ⟨own', later'⟩ := List.forall_mem_cons.1 readable'
      obtain ⟨first, rest⟩ := List.cons.inj lines
      rw [eq_of_line_eq own own' first, ih later later' rest]

theorem eq_of_join_render_eq {rows rows' : List Row} (readable : ∀ r ∈ rows, r.Readable)
    (readable' : ∀ r ∈ rows', r.Readable)
    (same : String.join (rows.map render) = String.join (rows'.map render)) : rows = rows' := by
  apply eq_of_map_line_eq readable readable'
  have cut := congrArg (fun text => text.toList.splitOn '\n') same
  simp only [splitOn_join_render readable, splitOn_join_render readable'] at cut
  exact List.append_cancel_right cut

end Row

/-! ### From the rows to the tree -/

theorem IsName.exists_cons {name : String} (h : IsName name) :
    ∃ c rest, name.toList = c :: rest ∧ c ≠ ' ' := by
  cases chars : name.toList with
  | nil => exact absurd (String.toList_eq_nil_iff.1 chars) h.ne_empty
  | cons c rest =>
    refine ⟨c, rest, rfl, ?_⟩
    rintro rfl
    exact h.space_notMem (by simp [chars])

/-- The blank behind the kind is the first one of a token's row. -/
theorem IsName.kind_value_inj {kind kind' value value' : String} (h : IsName kind)
    (h' : IsName kind') (same : kind ++ " " ++ value = kind' ++ " " ++ value') :
    kind = kind' ∧ value = value' := by
  have chars : kind.toList ++ ' ' :: value.toList = kind'.toList ++ ' ' :: value'.toList := by
    simpa using congrArg String.toList same
  have words := congrArg (List.splitOn ' ') chars
  rw [List.splitOn_append_cons_self_of_not_mem h.space_notMem,
    List.splitOn_append_cons_self_of_not_mem h'.space_notMem] at words
  have kind_eq := (List.cons.inj words).1
  rw [kind_eq] at chars
  have value_eq := (List.cons.inj (List.append_cancel_left chars)).2
  exact ⟨String.toList_inj.1 kind_eq, String.toList_inj.1 value_eq⟩

/-- A tree's row is never read as a token's. -/
theorem IsName.ne_kind_value {name : String} (h : IsName name) (kind value : String) :
    name ≠ kind ++ " " ++ value := by
  rintro rfl
  exact h.space_notMem (by simp)

namespace Child

theorem readable_of_mem_rowsAll {cs : List Child} (named : Named cs) {depth : Nat} {r : Row}
    (mem : r ∈ rowsAll depth cs) : r.Readable := by
  induction named generalizing depth with
  | nil => cases mem
  | @token t rest kind value _ ih =>
    rw [rowsAll_token] at mem
    rcases List.mem_cons.1 mem with rfl | later
    · obtain ⟨c, rest, start, solid⟩ := kind.exists_cons
      refine ⟨by simp [kind.newline_notMem, value], c, rest ++ ' ' :: t.value.toList, ?_, solid⟩
      simp [start]
    · exact ih later
  | tree name _ _ ihBelow ihAfter =>
    rw [rowsAll_tree] at mem
    rcases List.mem_cons.1 mem with rfl | mem
    · exact ⟨name.newline_notMem, name.exists_cons⟩
    · rcases List.mem_append.1 mem with inner | later
      · exact ihBelow inner
      · exact ihAfter later

/-- Rows that begin with one that is not inside of `depth` trees, so that no children there can go on
into them. -/
def Ends (depth : Nat) (rows : List Row) : Prop := ∀ r, rows.head? = some r → r.depth < depth

theorem ends_rowsAll_append {depth : Nat} {rows : List Row} (ends : Ends depth rows)
    (cs : List Child) : Ends (depth + 1) (rowsAll depth cs ++ rows) := by
  intro r head
  cases cs with
  | nil => exact Nat.lt_succ_of_lt (ends r head)
  | cons c cs =>
    cases c <;>
    · cases head
      exact Nat.lt_succ_self depth

/-- Children are known from their rows, and so is where the rows of other nodes begin. -/
theorem alike_of_rowsAll_append_eq {cs ds : List Child} (named : Named cs) (named' : Named ds)
    {depth : Nat} {rows rows' : List Row} (ends : Ends depth rows) (ends' : Ends depth rows')
    (same : rowsAll depth cs ++ rows = rowsAll depth ds ++ rows') : Alike cs ds ∧ rows = rows' := by
  induction named generalizing ds depth rows rows' with
  | nil =>
    cases named' with
    | nil => exact ⟨.nil, same⟩
    | token _ _ _ | tree _ _ _ =>
      -- A row of this depth would be left over.
      have shallow := ends _ (congrArg List.head? same)
      exact absurd shallow (Nat.lt_irrefl depth)
  | token kind value _ ih =>
    cases named' with
    | nil => exact absurd (ends' _ (congrArg List.head? same).symm) (Nat.lt_irrefl depth)
    | token kind' value' after' =>
      obtain ⟨first, later⟩ := List.cons.inj same
      obtain ⟨kind_eq, value_eq⟩ := kind.kind_value_inj kind' (Row.mk.inj first).2
      obtain ⟨after, rest⟩ := ih after' ends ends' later
      exact ⟨.token kind_eq value_eq after, rest⟩
    | tree name _ _ =>
      have text := (Row.mk.inj (List.cons.inj same).1).2
      exact absurd text.symm (name.ne_kind_value _ _)
  | @tree tag inner rest name _ _ ihBelow ihAfter =>
    cases named' with
    | nil => exact absurd (ends' _ (congrArg List.head? same).symm) (Nat.lt_irrefl depth)
    | token _ _ _ =>
      have text := (Row.mk.inj (List.cons.inj same).1).2
      exact absurd text (name.ne_kind_value _ _)
    | @tree tag' inner' rest' _ below' after' =>
      rw [rowsAll_tree, rowsAll_tree, List.cons_append, List.cons_append, List.append_assoc,
        List.append_assoc] at same
      obtain ⟨first, later⟩ := List.cons.inj same
      obtain rfl : tag = tag' := (Row.mk.inj first).2
      -- What comes after the tree is one deeper than the rows that end its children.
      obtain ⟨below, later⟩ := ihBelow below' (ends_rowsAll_append ends rest)
        (ends_rowsAll_append ends' rest') later
      obtain ⟨after, left⟩ := ihAfter after' ends ends' later
      exact ⟨.tree below after, left⟩

theorem Alike.rowsAll_eq {cs ds : List Child} (alike : Alike cs ds) (depth : Nat) :
    rowsAll depth cs = rowsAll depth ds := by
  induction alike generalizing depth with
  | nil => rfl
  | token kind value _ ih => rw [rowsAll_token, rowsAll_token, kind, value, ih]
  | tree _ _ ihBelow ihAfter => rw [rowsAll_tree, rowsAll_tree, ihBelow, ihAfter]

end Child

namespace Tree

theorem rows_eq (t : Tree) : t.rows = Child.rowsAll 0 [.ofTree t] := by
  simp [rows, Child.rows, Child.ofTree]

/-- Two trees with names for tags and kinds have one outline exactly if they are equal up to the
lines and columns of their tokens. -/
theorem outline_eq_iff_alike {s t : Tree} (named : Child.Named [.ofTree s])
    (named' : Child.Named [.ofTree t]) :
    s.outline = t.outline ↔ Child.Alike [.ofTree s] [.ofTree t] := by
  rw [outline, outline, rows_eq, rows_eq]
  constructor
  · intro same
    have rows : Child.rowsAll 0 [.ofTree s] = Child.rowsAll 0 [.ofTree t] :=
      Row.eq_of_join_render_eq (fun _ => Child.readable_of_mem_rowsAll named)
        (fun _ => Child.readable_of_mem_rowsAll named') same
    have ends : Child.Ends 0 [] := fun r head => nomatch head
    exact (Child.alike_of_rowsAll_append_eq named named' ends ends (by rw [rows])).1
  · intro alike
    rw [alike.rowsAll_eq]

/-- Other lines do not show in an outline, and another nesting does. The value of the tokens has a
blank in it. -/
theorem outline_eq_iff_alike_nested :
    let c (line : UInt32) := Child.token (.synthetic "NAME" "b c" (.real line))
    let s : Tree := ⟨"path", [c 1, .tree "part" [c 2], .tree "part" []]⟩
    let t : Tree := ⟨"path", [c 3, .tree "part" [c 3], .tree "part" []]⟩
    let u : Tree := ⟨"path", [c 1, .tree "part" [c 2, .tree "part" []]]⟩
    Child.Named [.ofTree s] ∧ Child.Named [.ofTree t] ∧ Child.Named [.ofTree u] ∧
      s.outline = t.outline ∧ s.outline ≠ u.outline := by
  intro c s t u
  have path : IsName "path" := by decide
  have part : IsName "part" := by decide
  have kind : IsName "NAME" := by decide
  have value : '\n' ∉ "b c".toList := by decide
  have flat (first second : UInt32) :
      Child.Named [.ofTree ⟨"path", [c first, .tree "part" [c second], .tree "part" []]⟩] :=
    .tree path (.token kind value (.tree part (.token kind value .nil) (.tree part .nil .nil))) .nil
  have nested : Child.Named [.ofTree u] :=
    .tree path (.token kind value (.tree part (.token kind value (.tree part .nil .nil)) .nil)) .nil
  refine ⟨flat 1 2, flat 3 3, nested, ?_, ?_⟩
  · apply (outline_eq_iff_alike (flat 1 2) (flat 3 3)).2
    exact .tree (.token rfl rfl (.tree (.token rfl rfl .nil) (.tree .nil .nil))) .nil
  · intro same
    cases (outline_eq_iff_alike (flat 1 2) nested).1 same with
    | tree below _ =>
      cases below with
      | token _ _ after =>
        cases after with
        | tree below _ =>
          cases below with
          | token _ _ after => cases after

end Tree

end ScriptFrontend
