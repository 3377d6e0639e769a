import ScriptFrontend.Tree.Edit

/-!
# What is around the node at the end of a path

A frame is a tree with a hole among its children. The frames around a node, outermost first, are all
of a tree but that node: filled with the node they are the tree, and filled with another one they are
the tree after an edit of the node. A path of tags enters a frame whose hole holds the first subtree
with the tag; of what is in the hole, the tag alone counts. That is why a look-up and an edit along
one path find the same node, and why a node that keeps its tag in an edit can be looked up, and edited
again, along the same path.
-/

namespace ScriptFrontend

namespace Tree

/-- A tree with a hole in the place of one of its subtrees. -/
structure Frame where
  tag : String
  before : List Child
  after : List Child

def Frame.fill (frame : Frame) (t : Tree) : Tree :=
  ⟨frame.tag, frame.before ++ .ofTree t :: frame.after⟩

/-- A tree inside frames, outermost first. -/
def fill (frames : List Frame) (t : Tree) : Tree := frames.foldr Frame.fill t

@[simp] theorem fill_cons (frame : Frame) (frames : List Frame) (t : Tree) :
    fill (frame :: frames) t = frame.fill (fill frames t) := rfl

theorem tag_fill {s t : Tree} (frames : List Frame) (same : frames = [] → s.tag = t.tag) :
    (fill frames s).tag = (fill frames t).tag := by
  cases frames with
  | nil => exact same rfl
  | cons frame frames => rfl

/-- The path of tags that leads through these frames to the tree inside them: at each level the hole
is the first subtree with the tag. -/
inductive Enters : List String → List Frame → Tree → Prop
  | here (t : Tree) : Enters [] [] t
  | enter {tag : String} {path : List String} {frame : Frame} {frames : List Frame} {t : Tree}
      (first : ∀ s, .ofTree s ∈ frame.before → s.tag ≠ tag) (own : (fill frames t).tag = tag) :
      Enters path frames t → Enters (tag :: path) (frame :: frames) t

variable {α : Type}

theorem subtree?_fill {frame : Frame} {tag : String} {t : Tree}
    (first : ∀ s, .ofTree s ∈ frame.before → s.tag ≠ tag) (own : t.tag = tag) :
    (frame.fill t).subtree? tag = some t := by
  have passed : (frame.before.filterMap Child.toTree?).find? (·.tag == tag) = none := by
    rw [List.find?_eq_none]
    intro s mem
    obtain ⟨c, listed, tree⟩ := List.mem_filterMap.1 mem
    obtain rfl := Child.toTree?_eq_some_iff.1 tree
    simpa using first s listed
  simp [subtree?, subtrees, Frame.fill, List.find?_append, passed, own]

theorem exists_frame_of_subtree? {t s : Tree} {tag : String} (found : t.subtree? tag = some s) :
    ∃ frame : Frame, t = frame.fill s ∧ s.tag = tag ∧
      ∀ u, .ofTree u ∈ frame.before → u.tag ≠ tag := by
  obtain ⟨root, cs⟩ := t
  induction cs with
  | nil => cases found
  | cons c cs ih =>
    -- A child that is not entered stands in front of all that is found behind it.
    have passed (later : Tree.subtree? ⟨root, cs⟩ tag = some s)
        (other : ∀ u, .ofTree u = c → u.tag ≠ tag) :
        ∃ frame : Frame, ⟨root, c :: cs⟩ = frame.fill s ∧ s.tag = tag ∧
          ∀ u, .ofTree u ∈ frame.before → u.tag ≠ tag := by
      obtain ⟨⟨_, before, after⟩, same, own, first⟩ := ih later
      obtain ⟨rfl, rfl⟩ := Tree.mk.inj same
      refine ⟨⟨root, c :: before, after⟩, rfl, own, fun u listed => ?_⟩
      rcases List.mem_cons.1 listed with here | listed
      · exact other u here
      · exact first u listed
    cases c with
    | token token =>
      refine passed found fun u same => ?_
      cases same
    | tree tag' inner =>
      by_cases own : tag' = tag
      · obtain rfl : ⟨tag', inner⟩ = s := by simpa [subtree?, subtrees, own] using found
        exact ⟨⟨root, [], cs⟩, rfl, own, fun u listed => absurd listed List.not_mem_nil⟩
      · refine passed (by simpa [subtree?, subtrees, own] using found) fun u same => ?_
        obtain rfl : u = ⟨tag', inner⟩ := Child.ofTree_injective same
        exact own

/-- An edit passes by children without the tag, and leaves them in front of its result. -/
theorem editFirst?_append {tag : String} {passed : List Child}
    (other : ∀ s, .ofTree s ∈ passed → s.tag ≠ tag) (edit : Tree → Option (α × Tree))
    (cs : List Child) :
    editFirst? tag edit (passed ++ cs) =
      (editFirst? tag edit cs).map fun (a, ds) => (a, passed ++ ds) := by
  induction passed with
  | nil => cases found : editFirst? tag edit cs <;> simp [found]
  | cons c passed ih =>
    have later := ih fun s listed => other s (List.mem_cons_of_mem _ listed)
    cases c with
    | token token =>
      rw [List.cons_append, editFirst?, later, Option.map_map]
      rfl
    | tree tag' inner =>
      have own : tag' ≠ tag := other ⟨tag', inner⟩ List.mem_cons_self
      rw [List.cons_append, editFirst?, if_neg own, later, Option.map_map]
      rfl

theorem editFirst?_fill {frame : Frame} {tag : String} {t : Tree}
    (first : ∀ s, .ofTree s ∈ frame.before → s.tag ≠ tag) (own : t.tag = tag)
    (edit : Tree → Option (α × Tree)) :
    editFirst? tag edit (frame.fill t).children =
      (edit t).map fun (a, s) => (a, (frame.fill s).children) := by
  rw [Frame.fill, editFirst?_append first, Child.ofTree, editFirst?, if_pos own, Option.map_map]
  rfl

theorem editFirst?_eq_none {t : Tree} {tag : String} (missing : t.subtree? tag = none)
    (edit : Tree → Option (α × Tree)) : editFirst? tag edit t.children = none := by
  have other : ∀ s, .ofTree s ∈ t.children → s.tag ≠ tag := by
    intro s listed
    simpa using List.find?_eq_none.1 missing s
      (List.mem_filterMap.2 ⟨_, listed, Child.toTree?_ofTree s⟩)
  rw [← List.append_nil t.children, editFirst?_append other]
  rfl

/-- Whatever an edit by tag does, it does to one subtree, with the same children around it. -/
theorem exists_subtree_of_editFirst? {tag : String} {edit : Tree → Option (α × Tree)} {a : α}
    {cs ds : List Child} (edited : editFirst? tag edit cs = some (a, ds)) :
    ∃ before s s' after, cs = before ++ .ofTree s :: after ∧ edit s = some (a, s') ∧
      ds = before ++ .ofTree s' :: after := by
  have whole : cs = Tree.children ⟨tag, cs⟩ := rfl
  cases entered : Tree.subtree? ⟨tag, cs⟩ tag with
  | none => cases edited.symm.trans (editFirst?_eq_none entered edit)
  | some s =>
    obtain ⟨frame, same, own, first⟩ := exists_frame_of_subtree? entered
    rw [whole, same, editFirst?_fill first own] at edited
    obtain ⟨⟨b, s'⟩, answer, filled⟩ := Option.map_eq_some_iff.1 edited
    cases filled
    exact ⟨frame.before, s, s', frame.after, (Tree.mk.inj same).2, answer, rfl⟩

theorem exists_enters {t s : Tree} {path : List String} (found : t.follow? path = some s) :
    ∃ frames, Enters path frames s ∧ t = fill frames s := by
  induction path generalizing t with
  | nil => exact ⟨[], .here s, Option.some.inj found⟩
  | cons tag path ih =>
    obtain ⟨u, entered, below⟩ := Option.bind_eq_some_iff.1 found
    obtain ⟨frames, enters, rfl⟩ := ih below
    obtain ⟨frame, rfl, own, first⟩ := exists_frame_of_subtree? entered
    exact ⟨frame :: frames, .enter first own enters, rfl⟩

namespace Enters

variable {path : List String} {frames : List Frame} {t : Tree}

theorem follow? (enters : Enters path frames t) : (fill frames t).follow? path = some t := by
  induction enters with
  | here t => rfl
  | enter first own _ ih => rw [Tree.follow?, fill_cons, subtree?_fill first own, Option.bind_some, ih]

theorem editFollow? (enters : Enters path frames t) (edit : Tree → α × Tree) :
    Tree.editFollow? edit path (fill frames t) = some ((edit t).1, fill frames (edit t).2) := by
  induction enters with
  | here t => rfl
  | enter first own _ ih =>
    rw [Tree.editFollow?, fill_cons, editFirst?_fill first own, ih]
    rfl

theorem of_tag_eq {s : Tree} (enters : Enters path frames t) (same : s.tag = t.tag) :
    Enters path frames s := by
  induction enters with
  | here t => exact .here s
  | @enter _ _ _ frames _ first own _ ih =>
    exact .enter first ((tag_fill frames fun _ => same).trans own) (ih same)

end Enters

theorem editFollow?_eq_none {t : Tree} {path : List String} (missing : t.follow? path = none)
    (edit : Tree → α × Tree) : editFollow? edit path t = none := by
  induction path generalizing t with
  | nil => cases missing
  | cons tag path ih =>
    rw [follow?] at missing
    rw [editFollow?]
    cases entered : t.subtree? tag with
    | none => rw [editFirst?_eq_none entered]; rfl
    | some s =>
      obtain ⟨frame, rfl, own, first⟩ := exists_frame_of_subtree? entered
      rw [entered] at missing
      rw [editFirst?_fill first own, ih missing]
      rfl

/-- The tree after an edit of one of its nodes; where there is no such node, the tree as it was. -/
def afterEdit (t : Tree) (address : Address) (edit : Tree → α × Tree) : Tree :=
  match t.edit? address edit with
  | none => t
  | some (_, t') => t'

/-- An edit at the end of a path finds the node that a look-up finds, or none if that finds none. It
edits this node, in the same frames as before. If the edit keeps the tag of the node, the path leads
to the edited node, and another edit along the path goes on from there. -/
theorem edits_along_path (t : Tree) (path : String) (edit : Tree → α × Tree) :
    let node : Address := .tags (tagPath path)
    (t.edit? node edit = none ↔ t.node? node = none) ∧
    (t.node? node = none → t.afterEdit node edit = t) ∧
    ∀ s, t.node? node = some s →
      t.edit? node edit = some ((edit s).1, t.afterEdit node edit) ∧
      (∃ frames, Enters (tagPath path) frames s ∧ t = fill frames s ∧
        t.afterEdit node edit = fill frames (edit s).2) ∧
      ((edit s).2.tag = s.tag →
        (t.afterEdit node edit).node? node = some (edit s).2 ∧
        ∀ {β : Type} (again : Tree → β × Tree),
          (t.afterEdit node edit).edit? node again = t.edit? node fun s => again (edit s).2) := by
  intro node
  have absent (missing : t.node? node = none) : t.edit? node edit = none :=
    editFollow?_eq_none missing edit
  have present {s : Tree} (found : t.node? node = some s) : ∃ frames,
      Enters (tagPath path) frames s ∧ t = fill frames s ∧
        t.edit? node edit = some ((edit s).1, fill frames (edit s).2) := by
    obtain ⟨frames, enters, rfl⟩ := exists_enters found
    exact ⟨frames, enters, rfl, enters.editFollow? edit⟩
  refine ⟨⟨fun missing => ?_, absent⟩, fun missing => ?_, fun s found => ?_⟩
  · cases found : t.node? node with
    | none => rfl
    | some s =>
      obtain ⟨_, _, _, edited⟩ := present found
      cases missing.symm.trans edited
  · rw [afterEdit, absent missing]
  · obtain ⟨frames, enters, whole, edited⟩ := present found
    have after : t.afterEdit node edit = fill frames (edit s).2 := by rw [afterEdit, edited]
    rw [after]
    refine ⟨edited, ⟨frames, enters, whole, rfl⟩, fun kept => ⟨?_, fun again => ?_⟩⟩
    · exact (enters.of_tag_eq kept).follow?
    · rw [whole]
      have once := enters.editFollow? fun s => again (edit s).2
      exact ((enters.of_tag_eq kept).editFollow? again).trans once.symm

/-- The path `a.b` passes by the token `a` and enters the first of two subtrees with this tag. -/
theorem edits_along_path_first_of_two :
    let c := Child.token (.synthetic "NAME" "a" (.real 1))
    let t : Tree := ⟨"root", [c, .tree "a" [.tree "b" []], .tree "a" [.tree "b" [c]]]⟩
    let edit (s : Tree) : Unit × Tree := ((), s.append c)
    t.node? (.tags (tagPath "a.b")) = some ⟨"b", []⟩ ∧
      (t.afterEdit (.tags (tagPath "a.b")) edit).node? (.tags (tagPath "a.b")) = some ⟨"b", [c]⟩ ∧
      (t.afterEdit (.tags (tagPath "a.b")) edit).edit? (.tags (tagPath "a.b")) edit =
        t.edit? (.tags (tagPath "a.b")) fun s => edit (edit s).2 := by
  intro c t edit
  obtain ⟨-, -, present⟩ := edits_along_path t "a.b" edit
  have found : t.node? (.tags (tagPath "a.b")) = some ⟨"b", []⟩ := by decide
  obtain ⟨-, -, kept⟩ := present _ found
  obtain ⟨reached, again⟩ := kept rfl
  exact ⟨found, reached, again edit⟩

/-! ### Paths of positions -/

/-- The path of child positions that leads through frames to what is inside them. -/
def positions (frames : List Frame) : List Nat := frames.map (·.before.length)

theorem exists_frame_of_getElem? {t s : Tree} {index : Nat}
    (present : t.children[index]? = some (.ofTree s)) :
    ∃ frame : Frame, frame.before.length = index ∧ t = frame.fill s := by
  obtain ⟨within, same⟩ := List.getElem?_eq_some_iff.1 present
  refine ⟨⟨t.tag, t.children.take index, t.children.drop (index + 1)⟩, ?_, ?_⟩
  · exact List.length_take_of_le (Nat.le_of_lt within)
  · rw [Frame.fill, ← same, ← List.drop_eq_getElem_cons within, List.take_append_drop]

theorem exists_frames_of_at? {t s : Tree} {path : List Nat} (found : t.at? path = some s) :
    ∃ frames, positions frames = path ∧ t = fill frames s := by
  induction path generalizing t with
  | nil => exact ⟨[], rfl, Option.some.inj found⟩
  | cons index path ih =>
    obtain ⟨u, reached, below⟩ := Option.bind_eq_some_iff.1 found
    obtain ⟨c, present, tree⟩ := Option.bind_eq_some_iff.1 reached
    obtain rfl := Child.toTree?_eq_some_iff.1 tree
    obtain ⟨frames, rfl, rfl⟩ := ih below
    obtain ⟨frame, rfl, rfl⟩ := exists_frame_of_getElem? present
    exact ⟨frame :: frames, rfl, rfl⟩

theorem editAt?_fill (edit : Tree → α × Tree) (frames : List Frame) (t : Tree) :
    editAt? edit (positions frames) (fill frames t) =
      some ((edit t).1, fill frames (edit t).2) := by
  induction frames with
  | nil => rfl
  | cons frame frames ih =>
    have hole : (frame.fill (fill frames t)).children[frame.before.length]?.bind Child.toTree? =
        some (fill frames t) := by simp [Frame.fill]
    have below : editAt? edit (frames.map (·.before.length)) (fill frames t) = _ := ih
    rw [positions, List.map_cons, editAt?, fill_cons, hole]
    simp [below, Frame.fill]

theorem afterEdit_fill (edit : Tree → Tree) (frames : List Frame) (t : Tree) :
    (fill frames t).afterEdit (.positions (positions frames)) (fun s => ((), edit s)) =
      fill frames (edit t) := by
  have edited : (fill frames t).edit? (.positions (positions frames)) (fun s => ((), edit s)) = _ :=
    editAt?_fill _ frames t
  rw [afterEdit, edited]

end Tree

end ScriptFrontend
