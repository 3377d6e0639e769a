import ScriptFrontend.Hoist.Relocation

/-!
# Exchanging a child at a place

A place is a node of a tree, reached by a path of child positions, and the position of one of its
children. `Tree.Replaced` says what it means that two trees differ by an exchange at a place, level
by level; the laws of exchanges follow from it by induction on the path. An exchange can be taken
back, two of them at one place are one, and an exchange commutes with an insertion among the
children of the root, which only shifts the place.
-/

namespace ScriptFrontend

/-- A child position of a node. -/
structure Place where
  path : List Nat
  index : Nat

/-- Where the child at an index is after an insertion at `k`. -/
def shiftIndex (k index : Nat) : Nat := if index < k then index else index + 1

/-- Where a place is after an insertion at `k` among the children of the root. -/
def Place.afterInsertion (k : Nat) : Place → Place
  | ⟨[], index⟩ => ⟨[], shiftIndex k index⟩
  | ⟨i :: path, index⟩ => ⟨shiftIndex k i :: path, index⟩

namespace Tree

/-- Puts an item at a place, and answers the child that was there. -/
def replaceAt? (t : Tree) (place : Place) (item : Child) : Option (Except IndexError Child × Tree) :=
  t.edit? (.positions place.path) (replaceIn place.index item)

/-- The second tree is the first one with `new` instead of `old` at a place. -/
inductive Replaced (old new : Child) : Place → Tree → Tree → Prop
  | root {index : Nat} {t : Tree} : t.children[index]? = some old →
      Replaced old new ⟨[], index⟩ t { t with children := t.children.set index new }
  | under {k index : Nat} {path : List Nat} {t s s' : Tree} : t.children[k]? = some (.ofTree s) →
      Replaced old new ⟨path, index⟩ s s' →
      Replaced old new ⟨k :: path, index⟩ t { t with children := t.children.set k (.ofTree s') }

theorem replaceIn_eq_ok_iff {index : Nat} {old new : Child} {t t' : Tree} :
    replaceIn index new t = (.ok old, t') ↔
      t.children[index]? = some old ∧ t' = { t with children := t.children.set index new } := by
  unfold replaceIn replace
  cases t.children[index]? <;> simp [eq_comm]

theorem replaceAt?_eq_ok_iff {place : Place} {old new : Child} {t t' : Tree} :
    t.replaceAt? place new = some (.ok old, t') ↔ Replaced old new place t t' := by
  obtain ⟨path, index⟩ := place
  show editAt? (replaceIn index new) path t = some (.ok old, t') ↔ _
  induction path generalizing t t' with
  | nil =>
    rw [editAt?, Option.some.injEq, replaceIn_eq_ok_iff]
    constructor
    · rintro ⟨present, rfl⟩
      exact .root present
    · intro replaced
      cases replaced with
      | root present => exact ⟨present, rfl⟩
  | cons k path ih =>
    rw [editAt?]
    constructor
    · intro edited
      split at edited
      · cases edited
      · rename_i s reached
        obtain ⟨c, present, tree⟩ := Option.bind_eq_some_iff.1 reached
        obtain rfl := Child.toTree?_eq_some_iff.1 tree
        obtain ⟨⟨a, s'⟩, below, same⟩ := Option.map_eq_some_iff.1 edited
        cases same
        exact .under present (ih.1 below)
    · intro replaced
      cases replaced with
      | under present replaced =>
        simp [present, ih.2 replaced]

namespace Replaced

variable {old new : Child} {place : Place} {t t' : Tree}

theorem tag_eq (r : Replaced old new place t t') : t'.tag = t.tag := by
  cases r <;> rfl

theorem length_eq (r : Replaced old new place t t') : t'.children.length = t.children.length := by
  cases r <;> simp

private theorem set_of_getElem? {cs : List Child} {index : Nat} {c : Child}
    (present : cs[index]? = some c) : cs.set index c = cs := by
  obtain ⟨within, rfl⟩ := List.getElem?_eq_some_iff.1 present
  exact List.set_getElem_self within

private theorem getElem?_set_of_getElem? {cs : List Child} {index : Nat} {c d : Child}
    (present : cs[index]? = some c) : (cs.set index d)[index]? = some d :=
  List.getElem?_set_self (List.getElem?_eq_some_iff.1 present).1

theorem symm (r : Replaced old new place t t') : Replaced new old place t' t := by
  induction r with
  | @root index t present =>
    have back : Replaced new old ⟨[], index⟩ { t with children := t.children.set index new } _ :=
      .root (getElem?_set_of_getElem? present)
    rwa [List.set_set, set_of_getElem? present] at back
  | @under k index path t s s' present _ ih =>
    have back : Replaced new old ⟨k :: path, index⟩
        { t with children := t.children.set k (.ofTree s') } _ :=
      .under (getElem?_set_of_getElem? present) ih
    rwa [List.set_set, set_of_getElem? present] at back

theorem trans {old' newer : Child} {t'' : Tree} (r : Replaced old new place t t')
    (r' : Replaced old' newer place t' t'') : Replaced old newer place t t'' := by
  induction r generalizing t'' with
  | @root index t present =>
    cases r' with
    | root _ =>
      rw [List.set_set]
      exact .root present
  | @under k index path t s s' present _ ih =>
    cases r' with
    | under present' inner =>
      rw [getElem?_set_of_getElem? present] at present'
      obtain rfl := Child.ofTree_injective (Option.some.inj present')
      rw [List.set_set]
      exact .under present (ih inner)

/-- What stands at a place can be exchanged for anything. -/
theorem exists_replaced (r : Replaced old new place t t') (other : Child) :
    ∃ t'', Replaced old other place t t'' := by
  induction r with
  | root present => exact ⟨_, .root present⟩
  | under present _ ih =>
    obtain ⟨s'', inner⟩ := ih
    exact ⟨_, .under present inner⟩

/-- An exchange within the last child. -/
theorem of_last {cs : List Child} {c : Child} {path : List Nat} {index : Nat}
    (r : Replaced old new ⟨cs.length :: path, index⟩ t t') (children : t.children = cs ++ [c]) :
    ∃ s s', c = .ofTree s ∧ Replaced old new ⟨path, index⟩ s s' ∧
      t'.children = cs ++ [.ofTree s'] := by
  cases r with
  | @under _ _ _ _ s s' present inner =>
    rw [children, List.getElem?_concat_length] at present
    refine ⟨s, s', Option.some.inj present, inner, ?_⟩
    rw [children, List.set_append_right _ _ (Nat.le_refl _), Nat.sub_self]
    rfl

end Replaced

/-! ### Insertions among the children of the root -/

def insertAt (t : Tree) (k : Nat) (item : Child) : Tree :=
  { t with children := t.children.insertIdx k item }

def eraseAt (t : Tree) (k : Nat) : Tree := { t with children := t.children.eraseIdx k }

theorem eraseAt_insertAt (t : Tree) (k : Nat) (item : Child) :
    (t.insertAt k item).eraseAt k = t := by
  rw [eraseAt, insertAt, List.eraseIdx_insertIdx_self]

private theorem getElem?_insertIdx_shiftIndex (cs : List Child) (k index : Nat) (c : Child) :
    (cs.insertIdx k c)[shiftIndex k index]? = cs[index]? := by
  rw [List.getElem?_insertIdx, shiftIndex]
  by_cases before : index < k
  · simp [before]
  · rw [if_neg before, if_neg (by omega), if_neg (by omega), Nat.add_sub_cancel]

private theorem set_insertIdx (cs : List Child) (k index : Nat) (c d : Child) :
    (cs.insertIdx k c).set (shiftIndex k index) d = (cs.set index d).insertIdx k c := by
  induction k generalizing cs index with
  | zero => rfl
  | succ k ih =>
    cases cs with
    | nil => rfl
    | cons a cs =>
      cases index with
      | zero => rfl
      | succ index =>
        have shifted : shiftIndex (k + 1) (index + 1) = shiftIndex k index + 1 := by
          unfold shiftIndex
          split <;> split <;> omega
        rw [shifted, List.insertIdx_succ_cons, List.set_cons_succ, ih, List.set_cons_succ,
          List.insertIdx_succ_cons]

theorem Replaced.insertAt {old new : Child} {place : Place} {t t' : Tree}
    (r : Replaced old new place t t') (k : Nat) (item : Child) :
    Replaced old new (place.afterInsertion k) (t.insertAt k item) (t'.insertAt k item) := by
  cases r with
  | @root index _ present =>
    rw [Tree.insertAt, Tree.insertAt, ← set_insertIdx]
    exact .root (by rwa [getElem?_insertIdx_shiftIndex])
  | @under i index path _ s s' present inner =>
    rw [Tree.insertAt, Tree.insertAt, ← set_insertIdx]
    exact .under (by rwa [getElem?_insertIdx_shiftIndex]) inner

end Tree

end ScriptFrontend
