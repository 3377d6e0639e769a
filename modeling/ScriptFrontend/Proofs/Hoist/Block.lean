import ScriptFrontend.Proofs.Hoist.Step
import ScriptFrontend.Proofs.Line.Dotted
import ScriptFrontend.Tree.Shape

/-!
# Blocks under hoisters

What binding a hoister reads off a block, and what an insertion changes about it. An insertion goes
in front of the last child, so it is seen from outside, as the line of the block, only where that
child is the only one.
-/

namespace ScriptFrontend

namespace Hoister

/-- The block of a statement `say f` on line 12, after `f` was taken out of it. -/
def sayBlock : Tree :=
  ⟨"block", [.tree "line" [.token ⟨"NAME", "say", .real 12, some 1, some 4⟩]]⟩

def calledValue : Tree := ⟨"entity", [.token ⟨"NAME", "f", .real 12, some 5, some 6⟩]⟩

/-! ### Binding -/

private theorem foldl_max_le_iff {ns : List Nat} {start bound : Nat} :
    ns.foldl max start ≤ bound ↔ start ≤ bound ∧ ∀ n ∈ ns, n ≤ bound := by
  induction ns generalizing start with
  | nil => simp
  | cons n ns ih => simp only [List.foldl_cons, ih, Nat.max_le, List.forall_mem_cons, and_assoc]

theorem last_le_highestSuffix {block a : Tree} {line : Line}
    (present : a ∈ block.tagged "assignment") (onLine : a.line = .ok line)
    (synthetic : line.isSynthetic) : line.last.val ≤ highestSuffix block line.parent := by
  refine (foldl_max_le_iff.1 (Nat.le_refl _)).2 _ (List.mem_map_of_mem (List.mem_map_of_mem ?_))
  refine List.mem_filter.2 ⟨List.mem_filterMap.2 ⟨a, present, ?_⟩, ?_⟩
  · rw [onLine]
    rfl
  · simp [synthetic]

/-- What binding a hoister settles. -/
theorem of_bind {block : Tree} {h : Hoister} (bound : bind block = .ok h) :
    h.block = block ∧ block.line = .ok h.origin ∧
      h.next.val = highestSuffix block h.base + 1 ∧ h.minted = [] := by
  unfold bind at bound
  split at bound
  · cases bound
  · split at bound
    · cases bound
    · rename_i origin onLine
      split at bound
      · cases bound
      · rename_i next suffix
        cases bound
        exact ⟨rfl, onLine, Component.ofNat?_eq_some_iff.1 suffix, rfl⟩

theorem events_of_bind {block : Tree} {h : Hoister} (bound : bind block = .ok h) :
    h.events = [] := by
  unfold bind at bound
  split at bound
  · cases bound
  · split at bound
    · cases bound
    · split at bound <;> cases bound
      rfl

/-! ### Targets -/

theorem targetName_injective {l m : Line} (h : targetName l = targetName m) : l = m :=
  Line.dotted_injective ((String.append_right_inj "p-").1 h)

theorem referenceTo?_assignmentOn (line : Line) (value : Tree) :
    referenceTo? (assignmentOn line value) = some (pathOn line (targetName line)) := by
  simp [referenceTo?, assignmentOn, Tree.subtree?, Tree.subtrees, Child.ofTree, pathOn]

/-- The name that an assignment assigns to. -/
def target? (assignment : Tree) : Option String := (referenceTo? assignment).map Tree.pathName

theorem pathName_pathOn (line : Line) (name : String) : (pathOn line name).pathName = name := by
  simp [pathOn, Tree.pathName, Tree.pathName.segment, Token.synthetic, String.join]

theorem target?_assignmentOn (line : Line) (value : Tree) :
    target? (assignmentOn line value) = some (targetName line) := by
  rw [target?, referenceTo?_assignmentOn, Option.map_some, pathName_pathOn]

/-! ### Insertion -/

private theorem insertIdx_length_append {α : Type} (xs : List α) (x last : α) :
    (xs ++ [last]).insertIdx xs.length x = xs ++ [x, last] := by
  induction xs with
  | nil => rfl
  | cons y xs ih => simp [ih]

theorem insertionIndex_eq_length {block : Tree} {cs : List Child} {last : Child}
    (children : block.children = cs ++ [last]) : insertionIndex block = cs.length := by
  simp [insertionIndex, children]

theorem children_insert {h : Hoister} {cs : List Child} {last : Child}
    (children : h.block.children = cs ++ [last]) (a : Tree) :
    (h.insert a).block.children = cs ++ [.ofTree a, last] := by
  rw [insert, insertionIndex_eq_length children, children, insertIdx_length_append]

/-- A block on a line has a last child, in front of which assignments are put. -/
theorem children_eq_concat {t : Tree} {l : Line} (onLine : t.line = .ok l) :
    ∃ cs last, t.children = cs ++ [last] := by
  obtain ⟨token, first, -⟩ := Tree.line_eq_ok_iff.1 onLine
  have nonempty : t.children ≠ [] := by
    intro empty
    rw [empty] at first
    cases first
  exact ⟨_, _, (List.dropLast_concat_getLast nonempty).symm⟩

theorem mem_tagged_insert {h : Hoister} {a s : Tree} {tag : String}
    (present : s ∈ (h.insert a).block.tagged tag) : s = a ∨ s ∈ h.block.tagged tag := by
  obtain ⟨child, tagged⟩ := Tree.mem_tagged_iff.1 present
  have within : insertionIndex h.block ≤ h.block.children.length := Nat.sub_le ..
  rcases (List.mem_insertIdx within).1 child with same | before
  · exact .inl (Child.ofTree_injective same)
  · exact .inr (Tree.mem_tagged_iff.2 ⟨before, tagged⟩)

/-- An assignment in front of the only child takes over the block's line; in any other place it is
not seen from there. -/
theorem line_insert {h : Hoister} {a : Tree} {l m : Line} (onLine : h.block.line = .ok l)
    (assigned : a.line = .ok m) :
    (h.insert a).block.line = .ok m ∨ (h.insert a).block.line = .ok l := by
  obtain ⟨cs, last, children⟩ := children_eq_concat onLine
  simp only [Tree.line_eq_ok_iff, children_insert children] at onLine assigned ⊢
  rw [children] at onLine
  cases cs with
  | nil => exact .inl assigned
  | cons c cs => exact .inr onLine

/-- A newly bound hoister puts every value on the first line that it derives. -/
theorem inject_of_bind {block value a : Tree} {h h' : Hoister} (bound : bind block = .ok h)
    (run : (inject value).run h = (.ok a, h')) :
    ∃ source moved, value.line = .ok source ∧
      value.mapFirstToken (fun token => { token with line := h.base.child h.next }) = .ok moved ∧
      a = assignmentOn (h.base.child h.next) moved ∧
      h'.minted = [h.base.child h.next] ∧ h'.block = (h.insert a).block := by
  obtain ⟨-, -, -, none⟩ := of_bind bound
  obtain ⟨h₁, made, rfl⟩ := inject_of_ok run
  obtain ⟨source, line, moved, onSource, choice, relocated, rfl⟩ := makeAssignment_of_ok made
  cases choice with
  | kept known =>
    rw [none] at known
    cases known
  | fresh _ _ =>
    refine ⟨source, moved, onSource, relocated, rfl, ?_, rfl⟩
    rw [minted_insert, minted_derive, none]
    rfl

end Hoister

end ScriptFrontend
