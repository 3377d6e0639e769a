import ScriptFrontend.Proofs.Hoist.Block
import ScriptFrontend.Proofs.Tree.Places

/-!
# Taking a hoist back

A hoist loses nothing and doubles nothing. When its assignment is taken out of the block and the
assigned value is put back for the reference, the block is as it was before the hoist, but for the
line of the value's leftmost token. The argument is that the insertion of the assignment and the
exchanges at the place of the value do not see each other: the insertion only shifts the place.
-/

namespace ScriptFrontend

namespace Hoister

/-- A value is taken out of a block, a hoister is bound to what is left, and the value is injected.
Then a reference to the assignment can be put in place of the placeholder. The inverse rewriting,
which deletes the assignment and puts the second child of its fragment back for the reference, ends
in the block with the moved value in place of the value; and the moved value is the value again once
its leftmost token is moved back from the derived line. -/
theorem hoist_undone {block detached v a : Tree} {place : Place} {placeholder : Child}
    {h h' : Hoister} (taken : block.replaceAt? place placeholder = some (.ok (.ofTree v), detached))
    (bound : bind detached = .ok h) (run : (inject v).run h = (.ok a, h')) :
    ∃ line reference hoisted moved restored source,
      h'.minted = [line] ∧ referenceTo? a = some reference ∧
      h'.block.replaceAt? (place.afterInsertion (insertionIndex detached)) (.ofTree reference) =
        some (.ok placeholder, hoisted) ∧
      hoisted.children[insertionIndex detached]? = some (.ofTree a) ∧
      (a.subtree? "assignment_fragment").bind (·.children[1]?) = some (.ofTree moved) ∧
      (hoisted.eraseAt (insertionIndex detached)).replaceAt? place (.ofTree moved) =
        some (.ok (.ofTree reference), restored) ∧
      block.replaceAt? place (.ofTree moved) = some (.ok (.ofTree v), restored) ∧
      v.line = .ok source ∧ v.mapFirstToken (fun token => { token with line }) = .ok moved ∧
      moved.mapFirstToken (fun token => { token with line := source }) = .ok v := by
  obtain ⟨source, moved, onSource, relocated, rfl, minted, after⟩ := inject_of_bind bound run
  obtain ⟨rfl, -, -, -⟩ := of_bind bound
  generalize h.base.child h.next = line at relocated minted after ⊢
  have taken := Tree.replaceAt?_eq_ok_iff.1 taken
  -- The block with the reference in place of the value, before the assignment is inserted into it.
  obtain ⟨referring, referred⟩ := taken.exists_replaced (.ofTree (pathOn line (targetName line)))
  obtain ⟨restored, back⟩ := taken.exists_replaced (.ofTree moved)
  refine ⟨line, _, referring.insertAt (insertionIndex h.block) (.ofTree (assignmentOn line moved)),
    moved, restored, source, minted, referenceTo?_assignmentOn line moved, ?_, ?_, rfl, ?_, ?_,
    onSource, relocated, Tree.mapFirstToken_line_undo onSource relocated⟩
  · rw [after]
    exact Tree.replaceAt?_eq_ok_iff.2 ((taken.symm.trans referred).insertAt _ _)
  · have within : insertionIndex h.block ≤ referring.children.length := by
      rw [referred.length_eq, ← taken.length_eq]
      exact Nat.sub_le ..
    rw [Tree.insertAt, List.getElem?_insertIdx_self, if_pos within]
  · rw [Tree.eraseAt_insertAt]
    exact Tree.replaceAt?_eq_ok_iff.2 (referred.symm.trans back)
  · exact Tree.replaceAt?_eq_ok_iff.2 back

/-- The block of a statement that begins with the value that is hoisted out of it. -/
def calledBlock : Tree := ⟨"block", [.tree "line" [.ofTree calledValue]]⟩

theorem hoist_undone_leading :
    ∃ detached h a h' reference hoisted moved restored,
      calledBlock.replaceAt? ⟨[0], 0⟩ (.ofTree (pathOn (.real 7) "_")) =
        some (.ok (.ofTree calledValue), detached) ∧
      bind detached = .ok h ∧ (inject calledValue).run h = (.ok a, h') ∧
      h'.block.replaceAt? ⟨[1], 0⟩ (.ofTree reference) =
        some (.ok (.ofTree (pathOn (.real 7) "_")), hoisted) ∧
      (hoisted.eraseAt 0).replaceAt? ⟨[0], 0⟩ (.ofTree moved) =
        some (.ok (.ofTree reference), restored) ∧
      calledBlock.replaceAt? ⟨[0], 0⟩ (.ofTree moved) = some (.ok (.ofTree calledValue), restored) ∧
      moved.line = .ok ((Line.real 7).child (.clamp 1)) := by
  obtain ⟨line, reference, hoisted, moved, restored, source, minted, -, installed, -, -, undone, same,
    -, relocated, -⟩ := @hoist_undone calledBlock _ calledValue _ ⟨[0], 0⟩
      (.ofTree (pathOn (.real 7) "_")) _ _ rfl rfl rfl
  cases minted
  cases relocated
  exact ⟨_, _, _, _, reference, hoisted, _, restored, rfl, rfl, rfl, installed, undone, same, rfl⟩

end Hoister

end ScriptFrontend
