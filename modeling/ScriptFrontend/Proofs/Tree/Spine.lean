import ScriptFrontend.Hoist.Relocation
import ScriptFrontend.Proofs.Tree.Leftmost

/-!
# What decides a position

The spine of a tree is the way from a node to its first child, again and again. All that is read off a
tree is read off the token at the end of its spine, and an error names the tree that was asked. So an
edit of a node can matter to the trees around it in two ways only: the node is on their spine, and
the edit changes what the node itself begins with; or the edit renames the tree that is asked, and an
error has another name in it.
-/

namespace ScriptFrontend

/-- The error with the name of another tree. -/
def PositionError.about (tag : String) : PositionError → PositionError
  | .noToken _ => .noToken tag
  | .missing _ part => .missing tag part

/-- The child with its token changed, if it is one. -/
def Child.changeToken (change : Token → Token) : Child → Child
  | .token t => .token (change t)
  | .tree tag cs => .tree tag cs

namespace Tree

/-! ### Readings -/

/-- All that is read off the leftmost token of a tree. -/
structure Readings where
  firstToken : Except PositionError Token
  line : Except PositionError Line
  column : Except PositionError UInt32
  endColumn : Except PositionError UInt32
  position : Except PositionError Position

def readings (t : Tree) : Readings :=
  ⟨t.firstToken, t.line, t.column, t.endColumn, t.position⟩

/-- The readings of a tree with another tag. -/
def Readings.about (tag : String) (r : Readings) : Readings :=
  ⟨r.firstToken.mapError (·.about tag), r.line.mapError (·.about tag),
    r.column.mapError (·.about tag), r.endColumn.mapError (·.about tag),
    r.position.mapError (·.about tag)⟩

theorem readings_congr {s t : Tree} (tag : s.tag = t.tag)
    (leftmost : Child.leftmostIn? s.children = Child.leftmostIn? t.children) :
    s.readings = t.readings := by
  have first : s.firstToken = t.firstToken := by rw [firstToken, firstToken, leftmost, tag]
  simp only [readings, line, column, endColumn, position, first, tag]

theorem firstToken_retag (t : Tree) (tag : String) :
    (t.retag tag).firstToken = t.firstToken.mapError (·.about tag) := by
  have same : (t.retag tag).children = t.children := rfl
  rw [firstToken, firstToken, same]
  cases Child.leftmostIn? t.children <;> rfl

theorem readings_retag (t : Tree) (tag : String) : (t.retag tag).readings = t.readings.about tag := by
  simp only [readings, Readings.about, line, column, endColumn, position, firstToken_retag]
  cases t.firstToken with
  | error e => rfl
  | ok token =>
    obtain ⟨_, _, _, column, endColumn⟩ := token
    cases column <;> cases endColumn <;> rfl

/-- The parts of a position are what the other accessors answer. -/
theorem position_eq_ok_iff_parts {t : Tree} {p : Position} :
    t.position = .ok p ↔ t.line = .ok p.line ∧ t.column = .ok p.column ∧
      ∀ c, t.endColumn = .ok c ↔ p.endColumn = some c := by
  rw [position_eq_ok_iff, line_eq_ok_iff, column_eq_ok_iff]
  simp only [endColumn_eq_ok_iff]
  cases Child.leftmostIn? t.children with
  | none => simp
  | some token =>
    have ends : (∀ c, token.endColumn = some c ↔ p.endColumn = some c) ↔
        token.endColumn = p.endColumn := Option.ext_iff.symm
    simp only [Option.some.injEq, exists_eq_left', ends]
    exact and_left_comm

theorem exists_position_iff {t : Tree} :
    (∃ p, t.position = .ok p) ↔ (∃ l, t.line = .ok l) ∧ ∃ c, t.column = .ok c := by
  constructor
  · intro ⟨p, position⟩
    obtain ⟨line, column, -⟩ := position_eq_ok_iff_parts.1 position
    exact ⟨⟨_, line⟩, _, column⟩
  · intro ⟨_, c, column⟩
    obtain ⟨token, leftmost, own⟩ := column_eq_ok_iff.1 column
    exact ⟨⟨token.line, c, token.endColumn⟩, position_eq_ok_iff.2 ⟨token, leftmost, own, rfl, rfl⟩⟩

/-! ### Frames along the spine -/

theorem zeros_cons_iff {frame : Frame} {frames : List Frame} :
    (∀ i ∈ positions (frame :: frames), i = 0) ↔
      frame.before = [] ∧ ∀ i ∈ positions frames, i = 0 := by
  simp [positions]

theorem leftmost_fill {frames : List Frame} (spine : ∀ i ∈ positions frames, i = 0) (t : Tree) :
    Child.leftmostIn? (fill frames t).children = Child.leftmostIn? t.children := by
  induction frames with
  | nil => rfl
  | cons frame frames ih =>
    obtain ⟨front, spine⟩ := zeros_cons_iff.1 spine
    rw [fill_cons, Frame.fill, front]
    exact ih spine

/-- What is inside frames off the spine is not seen from outside of them. -/
theorem leftmost_fill_eq {frames : List Frame} (off : ¬∀ i ∈ positions frames, i = 0) (s t : Tree) :
    Child.leftmostIn? (fill frames s).children = Child.leftmostIn? (fill frames t).children := by
  induction frames with
  | nil => exact absurd (fun i mem => absurd mem List.not_mem_nil) off
  | cons frame frames ih =>
    cases front : frame.before with
    | nil =>
      rw [fill_cons, fill_cons, Frame.fill, Frame.fill, front]
      exact ih fun spine => off (zeros_cons_iff.2 ⟨front, spine⟩)
    | cons c before =>
      -- The leftmost token is looked for in what stands in front of the hole.
      rw [fill_cons, fill_cons, Frame.fill, Frame.fill, front]
      rfl

/-- A leftmost token is the first child of a node, in frames along the spine. -/
theorem exists_frames_of_leftmost {t : Tree} {token : Token}
    (leftmost : Child.leftmostIn? t.children = some token) :
    ∃ frames tag rest, (∀ i ∈ positions frames, i = 0) ∧
      t = fill frames ⟨tag, .token token :: rest⟩ := by
  obtain ⟨tag, cs⟩ := t
  induction cs using Child.forest_induction generalizing tag with
  | nil => cases leftmost
  | token first rest =>
    cases leftmost
    exact ⟨[], tag, rest, fun i mem => absurd mem List.not_mem_nil, rfl⟩
  | tree inner cs rest ih =>
    obtain ⟨frames, last, after, spine, below⟩ := ih inner leftmost
    refine ⟨⟨tag, [], rest⟩ :: frames, last, after, zeros_cons_iff.2 ⟨rfl, spine⟩, ?_⟩
    rw [fill_cons, ← below]
    rfl

theorem mapLeftmost_fill {frames : List Frame} (spine : ∀ i ∈ positions frames, i = 0)
    (change : Token → Token) {s t : Tree}
    (changed : Child.mapLeftmostIn? change s.children = some t.children) (tag : s.tag = t.tag) :
    Child.mapLeftmostIn? change (fill frames s).children = some (fill frames t).children := by
  induction frames with
  | nil => exact changed
  | cons frame frames ih =>
    obtain ⟨front, spine⟩ := zeros_cons_iff.1 spine
    have below := ih spine
    have same := tag_fill frames fun _ => tag
    simp [Frame.fill, front, Child.mapLeftmostIn?, Child.ofTree, Child.mapLeftmost?, below, same]

/-- A change of the leftmost token changes that token and nothing around it. -/
theorem mapFirstToken_fill {frames : List Frame} (spine : ∀ i ∈ positions frames, i = 0)
    (change : Token → Token) (tag : String) (token : Token) (rest : List Child) :
    (fill frames ⟨tag, .token token :: rest⟩).mapFirstToken change =
      .ok (fill frames ⟨tag, .token (change token) :: rest⟩) := by
  have changed := mapLeftmost_fill spine change (s := ⟨tag, .token token :: rest⟩)
    (t := ⟨tag, .token (change token) :: rest⟩) rfl rfl
  have same : (fill frames ⟨tag, .token token :: rest⟩).tag = _ :=
    tag_fill (t := ⟨tag, .token (change token) :: rest⟩) frames fun _ => rfl
  rw [mapFirstToken, changed, same]

/-! ### Edits -/

/-- An edit of a node: of its children or its tag, of a token among its children, or of the token
that it begins with. -/
inductive Edit
  | prepend (item : Child)
  | append (item : Child)
  | retag (tag : String)
  | replace (index : Nat) (item : Child)
  | changeToken (index : Nat) (change : Token → Token)
  | changeFirst (change : Token → Token)

/-- The node after an edit; it stays as it is where there is no such child or token. -/
def Edit.apply : Edit → Tree → Tree
  | .prepend item, t => t.prepend item
  | .append item, t => t.append item
  | .retag tag, t => t.retag tag
  | .replace index item, t => (replaceIn index item t).2
  | .changeToken index change, t =>
    { t with children := t.children.modify index (Child.changeToken change) }
  | .changeFirst change, t =>
    match t.mapFirstToken change with
    | .ok t => t
    | .error _ => t

/-- An edit changes what a node begins with. -/
inductive Edit.Touches : Edit → Tree → Prop
  | prepend (item : Child) (t : Tree) : Touches (.prepend item) t
  | append (item : Child) {t : Tree} (empty : t.children = []) : Touches (.append item) t
  | replace (item : Child) (t : Tree) : Touches (.replace 0 item) t
  | changeToken (change : Token → Token) {t : Tree} {token : Token} {rest : List Child}
      (first : t.children = .token token :: rest) : Touches (.changeToken 0 change) t
  | changeFirst (change : Token → Token) (t : Tree) : Touches (.changeFirst change) t

/-- Out of range, nothing is replaced. -/
theorem snd_replaceIn (index : Nat) (item : Child) (t : Tree) :
    (replaceIn index item t).2 = { t with children := t.children.set index item } := by
  unfold replaceIn Tree.replace
  cases present : t.children[index]? with
  | none => rw [List.set_eq_of_length_le (List.getElem?_eq_none_iff.1 present)]
  | some displaced => rfl

theorem Edit.leftmost_apply {edit : Edit} {t : Tree} (off : ¬edit.Touches t) :
    Child.leftmostIn? (edit.apply t).children = Child.leftmostIn? t.children := by
  obtain ⟨tag, cs⟩ := t
  cases edit with
  | prepend item => exact absurd (.prepend item _) off
  | append item =>
    cases cs with
    | nil => exact absurd (.append item rfl) off
    | cons c cs => rfl
  | retag tag => rfl
  | replace index item =>
    rw [apply, snd_replaceIn]
    cases index with
    | zero => exact absurd (.replace item _) off
    | succ index => cases cs <;> rfl
  | changeToken index change =>
    cases cs with
    | nil => cases index <;> rfl
    | cons c cs =>
      cases index with
      | zero =>
        cases c with
        | token token => exact absurd (.changeToken change rfl) off
        | tree tag cs => rfl
      | succ index => rfl
  | changeFirst change => exact absurd (.changeFirst change _) off

theorem Edit.tag_apply {edit : Edit} (keeps : ∀ tag, edit ≠ .retag tag) (t : Tree) :
    (edit.apply t).tag = t.tag := by
  cases edit with
  | prepend item => rfl
  | append item => rfl
  | retag tag => exact absurd rfl (keeps tag)
  | replace index item => rw [apply, snd_replaceIn]
  | changeToken index change => rfl
  | changeFirst change =>
    rw [apply, mapFirstToken]
    cases Child.mapLeftmostIn? change t.children <;> rfl

theorem readings_fill_apply {frames : List Frame} {edit : Edit} {s : Tree}
    (off : ¬((∀ i ∈ positions frames, i = 0) ∧ edit.Touches s))
    (keeps : frames = [] → ∀ tag, edit ≠ .retag tag) :
    (fill frames (edit.apply s)).readings = (fill frames s).readings := by
  apply readings_congr
  · exact tag_fill frames fun root => edit.tag_apply (keeps root) s
  · by_cases spine : ∀ i ∈ positions frames, i = 0
    · rw [leftmost_fill spine, leftmost_fill spine]
      exact Edit.leftmost_apply fun touches => off ⟨spine, touches⟩
    · exact leftmost_fill_eq spine _ _

/-- The spine of a tree decides what is read off it. An edit of any node leaves all readings as they
are, unless the path to the node is the spine and the edit touches what the node begins with; to
rename the tree itself changes its name in their errors. The leftmost token can be changed wherever
there is one, and then it alone is changed. Line, column and end column are the parts of a position,
which is known when line and column are. -/
theorem spine_decides_readings (t : Tree) :
    (∀ path s, t.at? path = some s → ∀ edit : Edit,
      let edited := t.afterEdit (.positions path) fun s => ((), edit.apply s)
      (∃ frames, positions frames = path ∧ t = fill frames s ∧
        edited = fill frames (edit.apply s)) ∧
      (¬((∀ i ∈ path, i = 0) ∧ edit.Touches s) → (path = [] → ∀ tag, edit ≠ .retag tag) →
        edited.readings = t.readings)) ∧
    (∀ tag, (t.retag tag).readings = t.readings.about tag) ∧
    (∀ change : Token → Token,
      (∀ e, t.mapFirstToken change = .error e ↔ t.firstToken = .error e) ∧
      ∀ token, t.firstToken = .ok token →
        ∃ t' frames tag rest, t.mapFirstToken change = .ok t' ∧
          t'.firstToken = .ok (change token) ∧ (∀ i ∈ positions frames, i = 0) ∧
          t = fill frames ⟨tag, .token token :: rest⟩ ∧
          t' = fill frames ⟨tag, .token (change token) :: rest⟩) ∧
    ((∃ p, t.position = .ok p) ↔ (∃ l, t.line = .ok l) ∧ ∃ c, t.column = .ok c) ∧
    ∀ p, t.position = .ok p ↔ t.line = .ok p.line ∧ t.column = .ok p.column ∧
      ∀ c, t.endColumn = .ok c ↔ p.endColumn = some c := by
  refine ⟨?_, t.readings_retag, ?_, exists_position_iff, fun p => position_eq_ok_iff_parts⟩
  · intro path s found edit edited
    obtain ⟨frames, rfl, rfl⟩ := exists_frames_of_at? found
    have after : edited = fill frames (edit.apply s) := afterEdit_fill edit.apply frames s
    refine ⟨⟨frames, rfl, rfl, after⟩, fun off keeps => ?_⟩
    rw [after]
    refine readings_fill_apply off fun root => keeps ?_
    rw [root]
    rfl
  · intro change
    refine ⟨fun e => mapFirstToken_eq_error_iff, fun token first => ?_⟩
    obtain ⟨frames, tag, rest, spine, rfl⟩ :=
      exists_frames_of_leftmost (firstToken_eq_ok_iff.1 first)
    refine ⟨_, frames, tag, rest, mapFirstToken_fill spine change tag token rest, ?_, spine, rfl, rfl⟩
    rw [firstToken_eq_ok_iff, leftmost_fill spine]
    rfl

/-- A push behind the leftmost token, into the node that it stands in, and a change of that token. -/
theorem spine_decides_readings_first_node :
    let token : Token := ⟨"NAME", "x", .real 3, some 5, some 6⟩
    let c : Child := .token (.synthetic "NAME" "y" (.real 4))
    let t : Tree := ⟨"a", [.tree "b" [.token token], c]⟩
    let edit : Edit := .append c
    t.at? [0] = some ⟨"b", [.token token]⟩ ∧ ¬edit.Touches ⟨"b", [.token token]⟩ ∧
      (t.afterEdit (.positions [0]) fun s => ((), edit.apply s)).readings = t.readings ∧
      t.firstToken = .ok token ∧
      ∃ t', t.mapFirstToken (fun token => { token with line := .real 9 }) = .ok t' ∧
        t'.firstToken = .ok { token with line := .real 9 } := by
  intro token c t edit
  obtain ⟨edits, -, changes, -⟩ := spine_decides_readings t
  have untouched : ¬(Edit.append c).Touches ⟨"b", [.token token]⟩ := by
    intro touches
    cases touches with
    | append _ empty => cases empty
  have kept := (edits [0] _ rfl edit).2 (fun ⟨_, touches⟩ => untouched touches) fun root => nomatch root
  obtain ⟨t', _, _, _, changed, first, -⟩ :=
    (changes fun token => { token with line := .real 9 }).2 token rfl
  exact ⟨rfl, untouched, kept, rfl, t', changed, first⟩

end Tree

end ScriptFrontend
