import ScriptFrontend.Proofs.Hoist.Derived

/-!
# Where assignments are put

Hoisters put assignments into a block and change nothing else about it. However many of them are
bound to a block one after another, and whatever fails on the way, its tag and its children stay,
and the assignments stand in front of the last child in the order in which they were injected.
-/

namespace ScriptFrontend

namespace Hoister

/-! ### One hoister -/

theorem block_step {h : Hoister} {action : Action} (made : h.injected? action = none) :
    (h.step action).2.block = h.block :=
  (advances_step made).block_eq

theorem block_of_makeAssignment {h h' : Hoister} {value a : Tree}
    (run : (makeAssignment value).run h = (.ok a, h')) : h'.block = h.block := by
  obtain ⟨source, line, moved, -, choice, -, -⟩ := makeAssignment_of_ok run
  exact choice.advances.block_eq

theorem children_inject {h h' : Hoister} {value a : Tree} {cs : List Child} {last : Child}
    (children : h.block.children = cs ++ [last]) (run : (inject value).run h = (.ok a, h')) :
    h'.block.children = cs ++ [.ofTree a, last] := by
  obtain ⟨h₁, made, rfl⟩ := inject_of_ok run
  rw [← block_of_makeAssignment made] at children
  exact children_insert children a

theorem tag_run (h : Hoister) (actions : List Action) : (h.run actions).2.block.tag = h.block.tag :=
  run_invariant (P := fun g => g.block.tag = h.block.tag) (fun _ _ same _ => same)
    (fun _ _ _ same _ _ => same) rfl actions

theorem children_run {h : Hoister} {cs : List Child} {last : Child}
    (children : h.block.children = cs ++ [last]) (actions : List Action) :
    (h.run actions).2.block.children =
      cs ++ (h.injections actions).map (Child.ofTree ·.assignment) ++ [last] := by
  induction actions generalizing h cs with
  | nil => simpa [injections, run] using children
  | cons action actions ih =>
    show ((h.step action).2.run actions).2.block.children = _
    cases made : h.injected? action with
    | none =>
      rw [← block_step made] at children
      rw [ih children, injections, made]
      rfl
    | some i =>
      obtain ⟨rfl, run⟩ := of_injected?_eq_some made
      have grown := children_inject children run
      rw [show ∀ x : Child, cs ++ [x, last] = cs ++ [x] ++ [last] by simp] at grown
      rw [ih grown, injections, made]
      simp

/-- An injection puts its assignment at an index that the block has, and it is found there. -/
structure Placed (i : Injection) : Prop where
  within : insertionIndex i.before.block < i.before.block.children.length
  found : ∃ h', (inject i.value).run i.before = (.ok i.assignment, h') ∧
    h'.block.children[insertionIndex i.before.block]? = some (.ofTree i.assignment)

theorem Placed.of_inject {i : Injection} {h' : Hoister} {cs : List Child} {last : Child}
    (children : i.before.block.children = cs ++ [last])
    (run : (inject i.value).run i.before = (.ok i.assignment, h')) : Placed i := by
  have index := insertionIndex_eq_length children
  refine ⟨by simp [index, children], h', run, ?_⟩
  rw [index, children_inject children run]
  simp

theorem placed_of_mem_injections {h : Hoister} {cs : List Child} {last : Child}
    (children : h.block.children = cs ++ [last]) {actions : List Action} {i : Injection}
    (made : i ∈ h.injections actions) : Placed i := by
  induction actions generalizing h cs with
  | nil => cases made
  | cons action actions ih =>
    rcases List.mem_append.1 made with now | later
    · obtain ⟨rfl, run⟩ := of_injected?_eq_some (Option.mem_toList.1 now)
      exact .of_inject children run
    · exact ih (children_run children [action]) later

end Hoister

/-! ### Hoisters one after another -/

/-- The injections that several passes over a block bring about, in order. -/
def Tree.injections (block : Tree) : List (List Hoister.Action) → List Hoister.Injection
  | [] => []
  | actions :: passes =>
    onePass block actions ++ (afterPasses.onePass block actions).injections passes
where
  onePass (block : Tree) (actions : List Hoister.Action) : List Hoister.Injection :=
    match Hoister.bind block with
    | .ok h => h.injections actions
    | .error _ => []

namespace Hoister

theorem onePass_places {block : Tree} {cs : List Child} {last : Child}
    (children : block.children = cs ++ [last]) (actions : List Action) :
    (Tree.afterPasses.onePass block actions).tag = block.tag ∧
      (Tree.afterPasses.onePass block actions).children =
        cs ++ (Tree.injections.onePass block actions).map (Child.ofTree ·.assignment) ++ [last] ∧
      ∀ i ∈ Tree.injections.onePass block actions, Placed i := by
  rw [Tree.afterPasses.onePass, Tree.injections.onePass]
  cases bound : bind block with
  | error e =>
    refine ⟨rfl, by simpa using children, ?_⟩
    intro i made
    cases made
  | ok start =>
    obtain ⟨rfl, -, -, -⟩ := of_bind bound
    exact ⟨tag_run start actions, children_run children actions,
      fun i made => placed_of_mem_injections children made⟩

/-- After any passes over a block its tag and its children are as before, and in front of the last
child stand the assignments of all injections, in order. Every injection puts its assignment at an
index within the block, where it is found again. -/
theorem children_after_passes {block : Tree} {cs : List Child} {last : Child}
    (children : block.children = cs ++ [last]) (passes : List (List Action)) :
    (block.afterPasses passes).tag = block.tag ∧
      (block.afterPasses passes).children =
        cs ++ (block.injections passes).map (Child.ofTree ·.assignment) ++ [last] ∧
      ∀ i ∈ block.injections passes, Placed i := by
  induction passes generalizing block cs with
  | nil => exact ⟨rfl, by simpa [Tree.afterPasses, Tree.injections] using children, nofun⟩
  | cons actions passes ih =>
    obtain ⟨tag, grown, placed⟩ := onePass_places children actions
    obtain ⟨tag', grown', placed'⟩ := ih grown
    refine ⟨tag'.trans tag, ?_, ?_⟩
    · rw [Tree.injections, List.map_append, ← List.append_assoc]
      exact grown'
    · intro i made
      rcases List.mem_append.1 made with now | later
      · exact placed i now
      · exact placed' i later

/-- Two passes over a block of one statement. A value without a leftmost token is refused in between,
and a line is derived that no assignment is on. -/
theorem children_after_passes_twice :
    ∃ first second,
      (sayBlock.afterPasses [[.inject calledValue, .inject ⟨"path", []⟩],
          [.freshLine, .inject calledValue]]).children =
        [.ofTree first, .ofTree second] ++ sayBlock.children ∧
      first.line = .ok ((Line.real 12).child (.clamp 1)) ∧
      second.line = .ok ((Line.real 12).child (.clamp 3)) := by
  exact ⟨_, _, (@children_after_passes sayBlock [] _ rfl
    [[.inject calledValue, .inject ⟨"path", []⟩], [.freshLine, .inject calledValue]]).2.1, rfl, rfl⟩

end Hoister

end ScriptFrontend
