import ScriptFrontend.Tree.Position
import ScriptFrontend.Proofs.Tree.Frames

/-!
# What a tree reads off its leftmost token

The line and the position of a tree are those of its leftmost token, so a change of that token is
all that a tree sees of a change. An exchange of a subtree, however deep, is such a change only if
the subtree began with that token.
-/

namespace ScriptFrontend

namespace Tree

theorem firstToken_eq_ok_iff {t : Tree} {token : Token} :
    t.firstToken = .ok token ↔ Child.leftmostIn? t.children = some token := by
  unfold firstToken
  split <;> simp_all

theorem line_eq_ok_iff {t : Tree} {l : Line} :
    t.line = .ok l ↔ ∃ token, Child.leftmostIn? t.children = some token ∧ token.line = l := by
  simp only [← firstToken_eq_ok_iff]
  cases h : t.firstToken <;> simp [line, h, bind, Except.bind, pure, Except.pure]

theorem line_eq_error_iff {t : Tree} {e : PositionError} :
    t.line = .error e ↔ Child.leftmostIn? t.children = none ∧ e = .noToken t.tag := by
  unfold line firstToken
  cases Child.leftmostIn? t.children <;> simp [bind, Except.bind, pure, Except.pure, eq_comm]

/-- A part that the leftmost token may lack is answered where the token has it. -/
theorem part_eq_ok_iff {t : Tree} {part : Token → Option UInt32} {missing : PositionError}
    {c : UInt32} :
    (do
      match part (← t.firstToken) with
      | some column => return column
      | none => throw missing : Except PositionError UInt32) = .ok c ↔
      ∃ token, Child.leftmostIn? t.children = some token ∧ part token = some c := by
  simp only [← firstToken_eq_ok_iff]
  cases first : t.firstToken with
  | error e => simp [bind, Except.bind]
  | ok token =>
    cases own : part token <;>
      simp [own, bind, Except.bind, pure, Except.pure, throw, throwThe, MonadExceptOf.throw]

theorem column_eq_ok_iff {t : Tree} {c : UInt32} :
    t.column = .ok c ↔
      ∃ token, Child.leftmostIn? t.children = some token ∧ token.column = some c :=
  part_eq_ok_iff

theorem endColumn_eq_ok_iff {t : Tree} {c : UInt32} :
    t.endColumn = .ok c ↔
      ∃ token, Child.leftmostIn? t.children = some token ∧ token.endColumn = some c :=
  part_eq_ok_iff

theorem position_eq_ok_iff {t : Tree} {p : Position} :
    t.position = .ok p ↔ ∃ token, Child.leftmostIn? t.children = some token ∧
      token.column = some p.column ∧ token.line = p.line ∧ token.endColumn = p.endColumn := by
  simp only [← firstToken_eq_ok_iff]
  cases h : t.firstToken with
  | error e => simp [position, h, bind, Except.bind]
  | ok token =>
    cases p
    cases column : token.column <;>
      simp [position, h, column, bind, Except.bind, pure, Except.pure, throw, throwThe,
        MonadExceptOf.throw]
    exact and_left_comm

theorem line_of_position {t : Tree} {p : Position} (h : t.position = .ok p) : t.line = .ok p.line := by
  obtain ⟨token, first, -, same, -⟩ := position_eq_ok_iff.1 h
  exact line_eq_ok_iff.2 ⟨token, first, same⟩

theorem mapFirstToken_eq_error_iff {t : Tree} {change : Token → Token} {e : PositionError} :
    t.mapFirstToken change = .error e ↔ t.firstToken = .error e := by
  have none_iff : Child.mapLeftmostIn? change t.children = none ↔
      Child.leftmostIn? t.children = none := Child.mapLeftmostIn?_eq_none_iff
  unfold mapFirstToken firstToken
  cases leftmost : Child.leftmostIn? t.children with
  | none => simp [none_iff.2 leftmost]
  | some token =>
    cases changed : Child.mapLeftmostIn? change t.children with
    | none => cases leftmost.symm.trans (none_iff.1 changed)
    | some children => simp

/-- Whatever has a line has a leftmost token that can be changed. -/
theorem mapFirstToken_of_line {t : Tree} {l : Line} (h : t.line = .ok l) (f : Token → Token) :
    ∃ s, t.mapFirstToken f = .ok s := by
  obtain ⟨token, first, -⟩ := line_eq_ok_iff.1 h
  cases changed : t.mapFirstToken f with
  | ok s => exact ⟨s, rfl⟩
  | error e =>
    have missing := mapFirstToken_eq_error_iff.1 changed
    cases missing.symm.trans (firstToken_eq_ok_iff.2 first)

theorem leftmost_of_mapFirstToken {t s : Tree} {f : Token → Token} (h : t.mapFirstToken f = .ok s) :
    Child.leftmostIn? s.children = (Child.leftmostIn? t.children).map f := by
  unfold mapFirstToken at h
  split at h
  · rename_i changed
    cases h
    exact Child.leftmostIn?_of_mapLeftmostIn? changed
  · cases h

end Tree

/-- A change of the leftmost token can be undone by another one. -/
theorem Child.mapLeftmostIn?_undo {f g : Token → Token} {cs ds : List Child} {token : Token}
    (changed : mapLeftmostIn? f cs = some ds) (first : leftmostIn? cs = some token)
    (undo : g (f token) = token) : mapLeftmostIn? g ds = some cs := by
  induction cs using forest_induction generalizing ds with
  | nil => cases first
  | token t rest =>
    cases first
    cases changed
    simp [mapLeftmostIn?, mapLeftmost?, undo]
  | tree tag inner rest ih =>
    simp only [mapLeftmostIn?, mapLeftmost?, Option.map_map, Option.map_eq_some_iff] at changed
    obtain ⟨inner', changed, rfl⟩ := changed
    simp [mapLeftmostIn?, mapLeftmost?, ih changed first]

/-- A tree that was moved to another line is the same tree again when it is moved back. -/
theorem Tree.mapFirstToken_line_undo {t s : Tree} {source line : Line} (onSource : t.line = .ok source)
    (moved : t.mapFirstToken (fun token => { token with line }) = .ok s) :
    s.mapFirstToken (fun token => { token with line := source }) = .ok t := by
  obtain ⟨token, first, rfl⟩ := line_eq_ok_iff.1 onSource
  unfold mapFirstToken at moved
  split at moved
  · rename_i children changed
    cases moved
    have back := Child.mapLeftmostIn?_undo (g := fun t => { t with line := token.line }) changed first rfl
    rw [mapFirstToken, back]
  · cases moved

/-! ### Exchanges -/

/-- Children before and after an exchange of one child, as seen from their leftmost token: it stays,
or it was that of the old child and is that of the new one now. -/
def Child.Exchanges (old new : Child) (cs ds : List Child) : Prop :=
  leftmostIn? ds = leftmostIn? cs ∨
    leftmostIn? cs = old.leftmost? ∧ leftmostIn? ds = new.leftmost?

namespace Child

theorem Exchanges.trans {old new : Child} {s s' : Tree} {cs ds : List Child}
    (outer : Exchanges (.ofTree s) (.ofTree s') cs ds)
    (inner : Exchanges old new s.children s'.children) : Exchanges old new cs ds := by
  rcases outer with same | ⟨first, first'⟩
  · exact .inl same
  · have first : leftmostIn? cs = leftmostIn? s.children := first
    have first' : leftmostIn? ds = leftmostIn? s'.children := first'
    rw [Exchanges, first, first']
    exact inner

theorem Exchanges.cons {old new : Child} (c : Child) {cs ds : List Child} :
    Exchanges old new (c :: cs) (c :: ds) := .inl rfl

theorem exchanges_set {cs : List Child} {index : Nat} {old new : Child}
    (present : cs[index]? = some old) : Exchanges old new cs (cs.set index new) := by
  cases cs with
  | nil => cases present
  | cons c cs =>
    cases index with
    | zero =>
      cases present
      exact .inr ⟨rfl, rfl⟩
    | succ index => exact .cons c

end Child

namespace Tree

variable {α : Type}

theorem exchanges_of_editFirst? {tag : String} {edit : Tree → Option (α × Tree)} {a : α}
    {cs ds : List Child} (edited : editFirst? tag edit cs = some (a, ds)) :
    ∃ s s', edit s = some (a, s') ∧ Child.Exchanges (.ofTree s) (.ofTree s') cs ds := by
  obtain ⟨before, s, s', after, rfl, answer, rfl⟩ := exists_subtree_of_editFirst? edited
  refine ⟨s, s', answer, ?_⟩
  cases before with
  | nil => exact .inr ⟨rfl, rfl⟩
  | cons c before => exact .cons c

/-- An edit of a node is an exchange of that node, for the whole tree as for the node. -/
theorem exchanges_of_edit? {edit : Tree → α × Tree} {site : Address} {a : α} {t t' : Tree}
    (edited : t.edit? site edit = some (a, t')) :
    ∃ s s', edit s = (a, s') ∧ Child.Exchanges (.ofTree s) (.ofTree s') t.children t'.children := by
  cases site with
  | tags path =>
    replace edited : editFollow? edit path t = some (a, t') := edited
    induction path generalizing t t' with
    | nil => exact ⟨t, t', Option.some.inj edited, .inr ⟨rfl, rfl⟩⟩
    | cons tag path ih =>
      rw [editFollow?] at edited
      obtain ⟨⟨a, ds⟩, first, same⟩ := Option.map_eq_some_iff.1 edited
      cases same
      obtain ⟨s, s', below, outer⟩ := exchanges_of_editFirst? first
      obtain ⟨r, r', answer, inner⟩ := ih below
      exact ⟨r, r', answer, outer.trans inner⟩
  | positions path =>
    replace edited : editAt? edit path t = some (a, t') := edited
    induction path generalizing t t' with
    | nil => exact ⟨t, t', Option.some.inj edited, .inr ⟨rfl, rfl⟩⟩
    | cons index path ih =>
      rw [editAt?] at edited
      split at edited
      · cases edited
      · rename_i s present
        obtain ⟨⟨a, s'⟩, below, same⟩ := Option.map_eq_some_iff.1 edited
        cases same
        obtain ⟨c, child, tree⟩ := Option.bind_eq_some_iff.1 present
        obtain rfl := Child.toTree?_eq_some_iff.1 tree
        obtain ⟨r, r', answer, inner⟩ := ih below
        exact ⟨r, r', answer, (Child.exchanges_set child).trans inner⟩

end Tree

end ScriptFrontend
