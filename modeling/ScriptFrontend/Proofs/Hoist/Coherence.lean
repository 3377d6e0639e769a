import ScriptFrontend.Proofs.Hoist.Injected

/-!
# An assignment and its line

A new assignment is on one line with all that it is made of: its target, the part behind the target,
the value that was moved there, and any reference to it. The hoister derived that line and does not
forget it, so whatever it is asked to do with one of these trees later on, the tree keeps its line.
The target is named after the line, and the dotted text of a line names no other line.
-/

namespace ScriptFrontend

namespace Hoister

/-- A tree is on a line, and whatever the hoister does before it chooses a line for the tree, it
chooses that line and derives none. -/
structure Settled (h : Hoister) (t : Tree) (line : Line) : Prop where
  onLine : t.line = .ok line
  kept : ∀ actions, (lineFor t).run (h.run actions).2 = (.ok line, (h.run actions).2)

theorem run_lineFor_of_known {h : Hoister} {t : Tree} {line : Line} (onLine : t.line = .ok line)
    (known : line ∈ h.minted) : (lineFor t).run h = (.ok line, h) := by
  simp [run_lineFor, onLine, known]

theorem settled_of_known {h : Hoister} {t : Tree} {line : Line} (onLine : t.line = .ok line)
    (known : line ∈ h.minted) : h.Settled t line where
  onLine := onLine
  kept := fun actions => run_lineFor_of_known onLine (mem_minted_run known actions)

/-- Both ways to an assignment put it on a derived line; they differ in the block they leave. -/
theorem exists_assignmentOn {h h' : Hoister} {value a : Tree}
    (made : (makeAssignment value).run h = (.ok a, h') ∨ (inject value).run h = (.ok a, h')) :
    ∃ line moved, line ∈ h'.minted ∧ moved.line = .ok line ∧
      value.mapFirstToken (fun token => { token with line }) = .ok moved ∧
      a = assignmentOn line moved := by
  have assigned : ∃ h₁, (makeAssignment value).run h = (.ok a, h₁) ∧ h'.minted = h₁.minted := by
    rcases made with run | run
    · exact ⟨h', run, rfl⟩
    · obtain ⟨h₁, inner, rfl⟩ := inject_of_ok run
      exact ⟨h₁, inner, rfl⟩
  obtain ⟨h₁, run, minted⟩ := assigned
  obtain ⟨source, line, moved, onSource, choice, relocated, same⟩ := makeAssignment_of_ok run
  rw [minted]
  exact ⟨line, moved, choice.mem_minted, line_of_relocated relocated onSource, relocated, same⟩

theorem continues_of_made {start h h' : Hoister} {value a : Tree} (c : Continues start h)
    (made : (makeAssignment value).run h = (.ok a, h') ∨ (inject value).run h = (.ok a, h')) :
    Continues start h' := by
  rcases made with run | run
  · have step : (h.step (.makeAssignment value)).2 = h' := by
      rw [step, Action.perform, HoistM.run_map, run]
    exact step ▸ c.run [.makeAssignment value]
  · have step : (h.step (.inject value)).2 = h' := by
      rw [step, Action.perform, HoistM.run_map, run]
    exact step ▸ c.run [.inject value]

/-- A path without a name of its own is named after the line that it is on. -/
theorem makePath_of_ok {h h' : Hoister} {line : Option Line} {path : Tree}
    (run : (makePath none line).run h = (.ok path, h')) :
    ∃ l, path.line = .ok l ∧ path.pathName = targetName l := by
  cases line with
  | some l =>
    rw [run_makePath_line] at run
    cases run
    exact ⟨l, rfl, pathName_pathOn ..⟩
  | none =>
    obtain ⟨l, -, rfl⟩ := HoistM.run_map_eq_ok_iff.1 run
    exact ⟨l, rfl, pathName_pathOn ..⟩

/-- At any moment of a run of a hoister, an assignment that it makes is on one of the lines that it
derived, and so are the target, which is a single name token with the name of that line and without
columns, the part behind the target, and in it the value, which was moved there. A reference to the
assignment is the target again. From then on every choice of a line for any of them is that line and
derives none. And two paths that are given no name have the same name just when they are on the same
line, whichever hoisters they come from. -/
theorem assignment_on_one_line {block : Tree} {start : Hoister} (bound : bind block = .ok start) :
    (∀ actions value a h',
      (makeAssignment value).run (start.run actions).2 = (.ok a, h') ∨
        (inject value).run (start.run actions).2 = (.ok a, h') →
      ∃ line path fragment moved,
        a = ⟨"assignment", [.ofTree path, .ofTree fragment]⟩ ∧
        path = ⟨"path", [.token ⟨"NAME", "p-" ++ line.dotted, line, none, none⟩]⟩ ∧
        fragment = ⟨"assignment_fragment",
          [.token ⟨"EQUALS", "=", line, none, none⟩, .ofTree moved]⟩ ∧
        value.mapFirstToken (fun token => { token with line }) = .ok moved ∧
        referenceTo? a = some path ∧
        line ∈ h'.minted ∧
        (∃ k : Component, start.next.val ≤ k.val ∧ k.val < h'.next.val ∧
          line = start.base.child k) ∧
        ∀ t ∈ [a, path, fragment, moved], h'.Settled t line) ∧
    ∀ (g₁ g₂ g₁' g₂' : Hoister) (l₁ l₂ : Option Line) (p₁ p₂ : Tree),
      (makePath none l₁).run g₁ = (.ok p₁, g₁') → (makePath none l₂).run g₂ = (.ok p₂, g₂') →
      (p₁.pathName = p₂.pathName ↔ p₁.line = p₂.line) := by
  constructor
  · intro actions value a h' made
    have c : Continues start h' :=
      continues_of_made ((Continues.of_bind bound).run actions) made
    obtain ⟨line, moved, known, onLine, relocated, rfl⟩ := exists_assignmentOn made
    refine ⟨line, pathOn line (targetName line), _, moved, rfl, rfl, rfl, relocated,
      referenceTo?_assignmentOn line moved, known, (c.mem_minted_iff line).1 known, ?_⟩
    intro t mem
    refine settled_of_known ?_ known
    simp only [List.mem_cons, List.not_mem_nil, or_false] at mem
    rcases mem with rfl | rfl | rfl | rfl
    · rfl
    · rfl
    · rfl
    · exact onLine
  · intro g₁ g₂ g₁' g₂' l₁ l₂ p₁ p₂ run₁ run₂
    obtain ⟨l, onLine, name⟩ := makePath_of_ok run₁
    obtain ⟨m, onLine', name'⟩ := makePath_of_ok run₂
    rw [onLine, onLine', name, name', Except.ok.injEq]
    exact ⟨targetName_injective, congrArg targetName⟩

/-- The value begins with a reference to an assignment of the same hoister, and keeps the line. -/
theorem assignment_on_one_line_kept :
    ∃ start h h' a, bind sayBlock = .ok start ∧ (start.run [.inject calledValue]).2 = h ∧
      (inject ⟨"expression", [.ofTree (pathOn ((Line.real 12).child (.clamp 1)) "p-12.1")]⟩).run h =
        (.ok a, h') ∧
      h'.minted = [(Line.real 12).child (.clamp 1)] ∧
      ∃ line ∈ h'.minted, ∃ path, referenceTo? a = some path ∧ h'.Settled a line ∧
        h'.Settled path line := by
  refine ⟨_, _, _, _, rfl, rfl, rfl, rfl, ?_⟩
  obtain ⟨line, path, fragment, moved, -, -, -, -, reference, known, -, settled⟩ :=
    (@assignment_on_one_line sayBlock _ rfl).1 [.inject calledValue]
      ⟨"expression", [.ofTree (pathOn ((Line.real 12).child (.clamp 1)) "p-12.1")]⟩ _ _ (.inr rfl)
  exact ⟨line, known, path, reference, settled _ (by simp), settled _ (by simp)⟩

end Hoister

end ScriptFrontend
