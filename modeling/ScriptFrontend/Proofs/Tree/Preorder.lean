import ScriptFrontend.Tree.Search

/-!
# The answers of a search

What a search has left to answer is decided by its state: the trees that are still to be walked, one
after the other, each in pre-order. A step of the search moves the first of these answers out of the
state, so the search answers them in order and then ends, wherever it is stopped in between.

Equal subtrees may stand at several positions of a tree, so that a list of trees does not tell which
of them it holds. `Child.pathsIn` lists the positions beside the trees: each position of a subtree
once, in lexicographic order, which is the order of the recursion.
-/

namespace ScriptFrontend

namespace Child

theorem preorderAll_append (cs ds : List Child) :
    preorderAll (cs ++ ds) = preorderAll cs ++ preorderAll ds := by
  induction cs with
  | nil => simp [preorderAll]
  | cons c cs ih => simp [preorderAll, ih]

/-- Tokens add nothing to the pre-order. -/
theorem preorderAll_trees (cs : List Child) :
    preorderAll ((cs.filterMap toTree?).map ofTree) = preorderAll cs := by
  induction cs with
  | nil => rfl
  | cons c cs ih =>
    cases c with
    | token t => exact ih
    | tree tag inner => simp [preorderAll, ofTree, ih]

end Child

namespace Search

/-- What a search has left to answer. -/
def remaining (s : Search) : List Tree :=
  (Child.preorderAll (s.pending.map .ofTree)).filter (·.tag == s.tag)

theorem remaining_search (t : Tree) (tag : String) :
    (t.search tag).remaining = t.descendants.filter (·.tag == tag) := by
  simp only [remaining, Tree.search, Tree.subtrees, Child.preorderAll_trees, Tree.descendants]

/-- To put the subtrees of a tree in its place takes away the tree itself, and nothing else. -/
theorem remaining_cons (tag : String) (t : Tree) (rest : List Tree) :
    remaining ⟨tag, t :: rest⟩ = [t].filter (·.tag == tag) ++ (expand tag t rest).remaining := by
  simp only [remaining, expand, List.map_cons, List.map_append, Child.preorderAll_append,
    Tree.subtrees, Child.preorderAll_trees, ← List.filter_append]
  rfl

theorem remaining_of_next?_eq_none {s : Search} (ended : s.next? = none) : s.remaining = [] := by
  fun_induction next? s with
  | case1 => rfl
  | case2 => cases ended
  | case3 tag t rest other ih => simp [remaining_cons, other, ih ended]

theorem remaining_of_next?_eq_some {s s' : Search} {t : Tree} (found : s.next? = some (t, s')) :
    s.remaining = t :: s'.remaining := by
  fun_induction next? s with
  | case1 => cases found
  | case2 u rest =>
    obtain ⟨rfl, rfl⟩ := Prod.mk.inj (Option.some.inj found)
    simp [remaining_cons]
  | case3 tag u rest other ih => simp [remaining_cons, other, ih found]

/-- From one search to another, the answers of as many steps as there are answers. -/
inductive Produces : Search → List Tree → Search → Prop
  | refl (s : Search) : Produces s [] s
  | next {s s' s'' : Search} {t : Tree} {ts : List Tree} :
      s.next? = some (t, s') → Produces s' ts s'' → Produces s (t :: ts) s''

/-- A search comes to its end, and has answered by then what it had left to answer. -/
theorem exists_produces_remaining (s : Search) :
    ∃ s', s.Produces s.remaining s' ∧ s'.next? = none := by
  -- Every answer takes one tree out of what is left, and the induction is on that list.
  generalize left : s.remaining = ts
  induction ts generalizing s with
  | nil =>
    refine ⟨s, .refl s, ?_⟩
    cases step : s.next? with
    | none => rfl
    | some found => cases left.symm.trans (remaining_of_next?_eq_some step)
  | cons t ts ih =>
    cases step : s.next? with
    | none => cases left.symm.trans (remaining_of_next?_eq_none step)
    | some found =>
      obtain ⟨u, rest⟩ := found
      obtain ⟨rfl, left⟩ := List.cons.inj (left.symm.trans (remaining_of_next?_eq_some step))
      obtain ⟨s', produced, ended⟩ := ih rest left.symm
      exact ⟨s', .next step produced, ended⟩

theorem take_eq_take_remaining (n : Nat) (s : Search) : s.take n = s.remaining.take n := by
  induction n generalizing s with
  | zero => rfl
  | succ n ih =>
    rw [take]
    split
    · rename_i ended
      rw [remaining_of_next?_eq_none ended, List.take_nil]
    · rename_i t rest found
      rw [remaining_of_next?_eq_some found, List.take_succ_cons, ih]

theorem toList_eq_remaining (s : Search) : s.toList = s.remaining := by
  fun_induction toList s with
  | case1 s ended => exact (remaining_of_next?_eq_none ended).symm
  | case2 s t rest found ih => rw [ih, remaining_of_next?_eq_some found]

end Search

/-! ### Positions -/

namespace Child

mutual

/-- The positions of the trees of a child, in pre-order; the empty path is the child itself. -/
def paths : Child → List (List Nat)
  | .token _ => []
  | .tree _ cs => [] :: pathsIn cs

def pathsIn : List Child → List (List Nat)
  | [] => []
  | c :: cs => c.paths.map (0 :: ·) ++ (pathsIn cs).map (List.modifyHead (· + 1))

end

theorem nil_notMem_pathsIn (cs : List Child) : [] ∉ pathsIn cs := by
  induction cs with
  | nil => simp [pathsIn]
  | cons c cs ih => simp [pathsIn, ih]

/-- A path of positions among some children leads to one of them and then into it. -/
theorem cons_mem_pathsIn_iff {cs : List Child} {i : Nat} {rest : List Nat} :
    i :: rest ∈ pathsIn cs ↔ ∃ c, cs[i]? = some c ∧ rest ∈ c.paths := by
  induction cs generalizing i with
  | nil => simp [pathsIn]
  | cons c cs ih =>
    have later : i :: rest ∈ (pathsIn cs).map (List.modifyHead (· + 1)) ↔
        ∃ k, i = k + 1 ∧ k :: rest ∈ pathsIn cs := by
      rw [List.mem_map]
      constructor
      · intro ⟨path, listed, shifted⟩
        cases path with
        | nil => cases shifted
        | cons k path =>
          cases shifted
          exact ⟨k, rfl, listed⟩
      · intro ⟨k, same, listed⟩
        exact ⟨k :: rest, listed, by rw [same]; rfl⟩
    rw [pathsIn, List.mem_append, later]
    cases i with
    | zero => simp
    | succ i => simp [ih]

/-- The induction is on the path, which leads into the child. -/
theorem mem_paths_iff {c : Child} {path : List Nat} :
    path ∈ c.paths ↔ (c.toTree?.bind (·.at? path)).isSome := by
  induction path generalizing c with
  | nil => cases c <;> simp [paths, Tree.at?]
  | cons i rest ih =>
    cases c with
    | token t => simp [paths]
    | tree tag cs =>
      rw [paths, List.mem_cons, or_iff_right (by simp), cons_mem_pathsIn_iff, toTree?_tree,
        Option.bind_some, Tree.at?]
      cases cs[i]? with
      | none => simp
      | some d => simpa using ih

/-- The positions in a first child come before those among the other children, which are shifted. -/
theorem pairwise_joined {ps qs : List (List Nat)} (inFirst : ps.Pairwise (· < ·))
    (amongRest : qs.Pairwise (· < ·)) (proper : [] ∉ qs) :
    (ps.map (0 :: ·) ++ qs.map (List.modifyHead (· + 1))).Pairwise (· < ·) := by
  have exists_cons {q : List Nat} (mem : q ∈ qs) : ∃ k rest, q = k :: rest :=
    List.exists_cons_of_ne_nil fun empty => proper (empty ▸ mem)
  rw [List.pairwise_append, List.pairwise_map, List.pairwise_map]
  refine ⟨inFirst.imp fun before => ?_, amongRest.imp_of_mem fun memA memB before => ?_,
    fun a memA b memB => ?_⟩
  · exact List.cons_lt_cons_iff.2 (.inr ⟨rfl, before⟩)
  · obtain ⟨i, p, rfl⟩ := exists_cons memA
    obtain ⟨j, q, rfl⟩ := exists_cons memB
    simpa [List.cons_lt_cons_iff] using before
  · obtain ⟨p, -, rfl⟩ := List.mem_map.1 memA
    obtain ⟨q, mem, rfl⟩ := List.mem_map.1 memB
    obtain ⟨j, q, rfl⟩ := exists_cons mem
    exact List.cons_lt_cons_iff.2 (.inl (Nat.succ_pos j))

theorem pairwise_pathsIn (cs : List Child) : (pathsIn cs).Pairwise (· < ·) := by
  induction cs using forest_induction with
  | nil => exact .nil
  | token t rest ih => exact pairwise_joined .nil ih (nil_notMem_pathsIn rest)
  | tree tag inner rest ihInner ih =>
    refine pairwise_joined (.cons (fun path listed => ?_) ihInner) ih (nil_notMem_pathsIn rest)
    cases path with
    | nil => cases nil_notMem_pathsIn inner listed
    | cons i path => exact List.nil_lt_cons i path

theorem map_at?_pathsIn_cons (tag : String) (c : Child) (cs : List Child) :
    (pathsIn (c :: cs)).map (Tree.at? ⟨tag, c :: cs⟩) =
      c.paths.map (fun path => c.toTree?.bind (·.at? path)) ++
        (pathsIn cs).map (Tree.at? ⟨tag, cs⟩) := by
  rw [pathsIn, List.map_append, List.map_map, List.map_map]
  congr 1
  apply List.map_congr_left
  intro path listed
  cases path with
  | nil => cases nil_notMem_pathsIn cs listed
  | cons i rest => rfl

/-- The positions lead to the trees that the pre-order lists, one by one. -/
theorem map_at?_pathsIn (tag : String) (cs : List Child) :
    (pathsIn cs).map (Tree.at? ⟨tag, cs⟩) = (preorderAll cs).map some := by
  induction cs using forest_induction generalizing tag with
  | nil => rfl
  | token t rest ih =>
    rw [map_at?_pathsIn_cons, ih]
    rfl
  | tree tag' inner rest ihInner ih =>
    have own : (tree tag' inner).paths.map (fun path => (tree tag' inner).toTree?.bind (·.at? path)) =
        (tree tag' inner).preorder.map some := by
      rw [paths, preorder, List.map_cons, List.map_cons, ← ihInner tag']
      rfl
    rw [map_at?_pathsIn_cons, own, ih, preorderAll, List.map_append]

end Child

namespace Tree

theorem mem_pathsIn_iff {t : Tree} {path : List Nat} :
    path ∈ Child.pathsIn t.children ↔ path ≠ [] ∧ (t.at? path).isSome := by
  have reached : path ∈ (Child.ofTree t).paths ↔ (t.at? path).isSome := Child.mem_paths_iff
  rw [← reached, Child.ofTree, Child.paths, List.mem_cons, and_or_left]
  constructor
  · intro listed
    exact .inr ⟨fun empty => Child.nil_notMem_pathsIn _ (empty ▸ listed), listed⟩
  · intro listed
    rcases listed with ⟨proper, empty⟩ | ⟨-, listed⟩
    · cases proper empty
    · exact listed

/-- The positions of the descendants with a tag, in the order of the descendants. -/
theorem exists_paths (t : Tree) (tag : String) :
    ∃ paths : List (List Nat), paths.Pairwise (· < ·) ∧
      (∀ path, path ∈ paths ↔ path ≠ [] ∧ ∃ s, t.at? path = some s ∧ s.tag = tag) ∧
      paths.map t.at? = (t.descendants.filter (·.tag == tag)).map some := by
  let hasTag (found : Option Tree) : Bool := found.any (·.tag == tag)
  refine ⟨(Child.pathsIn t.children).filter (hasTag ∘ t.at?),
    (Child.pairwise_pathsIn t.children).filter _, fun path => ?_, ?_⟩
  · rw [List.mem_filter, mem_pathsIn_iff, and_assoc]
    cases reached : t.at? path <;> simp [hasTag, reached]
  · have all : (Child.pathsIn t.children).map t.at? = t.descendants.map some :=
      Child.map_at?_pathsIn t.tag t.children
    rw [← List.filter_map, all, List.filter_map]
    rfl

/-- A search for a tag answers the subtrees with the tag among the descendants in pre-order, each of
them once, and ends; the first answers are the beginning of that list. -/
theorem search_preorder (t : Tree) (tag : String) :
    let answers := t.descendants.filter (·.tag == tag)
    (∃ s, (t.search tag).Produces answers s ∧ s.next? = none) ∧
      (t.search tag).toList = answers ∧
      (∀ n, (t.search tag).take n = answers.take n) ∧
      ∃ paths : List (List Nat), paths.Pairwise (· < ·) ∧
        (∀ path, path ∈ paths ↔ path ≠ [] ∧ ∃ s, t.at? path = some s ∧ s.tag = tag) ∧
        paths.map t.at? = answers.map some := by
  intro answers
  have left : (t.search tag).remaining = answers := Search.remaining_search t tag
  refine ⟨?_, ?_, fun n => ?_, exists_paths t tag⟩
  · rw [← left]
    exact Search.exists_produces_remaining _
  · rw [Search.toList_eq_remaining, left]
  · rw [Search.take_eq_take_remaining, left]

end Tree

end ScriptFrontend
