import ScriptFrontend.Proofs.Hoist.Block
import ScriptFrontend.Proofs.Line.Order

/-!
# The lines that hoisters derive

All hoisters that are bound to a block one after another derive their lines from one base, each of
them in ascending order and behind everything that the block holds on such lines already. The
argument rests on `Continues`, which says how a hoister at work stands to the hoister that it was
when it was bound. An injection into a block of one statement puts a new leftmost token into the
block; what survives is the parent of the block's line, so `Continues` keeps that and not the line.
-/

namespace ScriptFrontend

/-- A block after several passes over it. Each pass binds a hoister and drives it by some actions;
a pass whose hoister cannot be bound leaves the block alone. -/
def Tree.afterPasses (block : Tree) (passes : List (List Hoister.Action)) : Tree :=
  passes.foldl onePass block
where
  onePass (block : Tree) (actions : List Hoister.Action) : Tree :=
    match Hoister.bind block with
    | .ok h => (h.run actions).2.block
    | .error _ => block

namespace Hoister

/-- How a hoister at work stands to the hoister that it was when it was bound. -/
structure Continues (start h : Hoister) : Prop where
  origin : h.origin = start.origin
  next_le : start.next.val ≤ h.next.val
  mem_minted_iff : ∀ l, l ∈ h.minted ↔
    ∃ k : Component, start.next.val ≤ k.val ∧ k.val < h.next.val ∧ l = start.base.child k
  onLine : ∃ l, h.block.line = .ok l ∧ l.parent = start.base
  last_lt : ∀ a ∈ h.block.tagged "assignment", ∀ l, a.line = .ok l → l.isSynthetic →
    l.parent = start.base → l.last.val < h.next.val

namespace Continues

variable {start h : Hoister}

theorem of_bind {block : Tree} (bound : bind block = .ok start) : Continues start start := by
  obtain ⟨rfl, onLine, next, minted⟩ := Hoister.of_bind bound
  refine ⟨rfl, Nat.le_refl _, fun l => ?_, ⟨start.origin, onLine, rfl⟩, ?_⟩
  · rw [minted]
    constructor
    · intro absent
      cases absent
    · rintro ⟨k, le, lt, -⟩
      omega
  · intro a present l onDerived synthetic parent
    have := last_le_highestSuffix present onDerived synthetic
    rw [parent] at this
    omega

theorem base (c : Continues start h) : h.base = start.base := by
  rw [Hoister.base, Hoister.base, c.origin]

theorem derive (c : Continues start h) {next : Component} (succ : h.next.succ? = some next) :
    Continues start (h.derive next) := by
  have larger : next.val = h.next.val + 1 := Component.succ?_eq_some_iff.1 succ
  have next_le := c.next_le
  refine ⟨c.origin, ?_, fun l => ?_, c.onLine, ?_⟩
  · rw [next_derive]
    omega
  · rw [minted_derive, List.mem_append, List.mem_singleton, c.mem_minted_iff, c.base, next_derive]
    constructor
    · rintro (⟨k, le, lt, rfl⟩ | rfl)
      · exact ⟨k, le, by omega, rfl⟩
      · exact ⟨h.next, next_le, by omega, rfl⟩
    · rintro ⟨k, le, lt, rfl⟩
      rcases Nat.lt_or_eq_of_le (Nat.le_of_lt_succ (larger ▸ lt)) with lt | same
      · exact .inl ⟨k, le, lt, rfl⟩
      · exact .inr (by rw [Component.ext_val same])
  · intro a present l onDerived synthetic parent
    have := c.last_lt a present l onDerived synthetic parent
    rw [next_derive]
    omega

theorem insert (c : Continues start h) {line : Line} (known : line ∈ h.minted) (value : Tree) :
    Continues start (h.insert (assignmentOn line value)) := by
  obtain ⟨k, -, lt, rfl⟩ := (c.mem_minted_iff line).1 known
  refine ⟨c.origin, c.next_le, c.mem_minted_iff, ?_, ?_⟩
  · obtain ⟨l, onLine, parent⟩ := c.onLine
    -- In front of an only child the block takes over the new line, which has the same parent.
    rcases line_insert onLine (line_assignmentOn (start.base.child k) value) with first | behind
    · exact ⟨_, first, Line.parent_child _ k⟩
    · exact ⟨l, behind, parent⟩
  · intro a present l onDerived synthetic parent
    rcases mem_tagged_insert present with rfl | before
    · rw [line_assignmentOn] at onDerived
      cases onDerived
      rwa [Line.last_child]
    · exact c.last_lt a before l onDerived synthetic parent

theorem run (c : Continues start h) (actions : List Action) :
    Continues start (h.run actions).2 :=
  run_invariant (fun _ _ c succ => c.derive succ) (fun _ _ value c known _ => c.insert known value) c
    actions

theorem lt_fresh (c : Continues start h) {l : Line} (known : l ∈ h.minted) :
    l < h.base.child h.next := by
  obtain ⟨k, -, lt, rfl⟩ := (c.mem_minted_iff l).1 known
  rw [c.base]
  exact Line.child_lt_child lt

theorem assignment_lt_fresh (c : Continues start h) {a : Tree} {l : Line}
    (present : a ∈ h.block.tagged "assignment") (onLine : a.line = .ok l)
    (synthetic : l.isSynthetic) (parent : l.parent = start.base) : l < h.base.child h.next := by
  rw [c.base, ← Line.child_parent_last synthetic, parent]
  exact Line.child_lt_child (c.last_lt a present l onLine synthetic parent)

end Continues

/-- The next suffix is one above the highest that the block began with, and one more for each line
that was derived since. -/
theorem next_run {block : Tree} {start : Hoister} (bound : bind block = .ok start)
    (actions : List Action) :
    (start.run actions).2.next.val =
      highestSuffix block start.base + 1 + (start.run actions).2.minted.length := by
  obtain ⟨-, -, first, none⟩ := of_bind bound
  apply run_invariant
    (P := fun h => h.next.val = highestSuffix block start.base + 1 + h.minted.length)
  · intro h next counted succ
    have larger : next.val = h.next.val + 1 := Component.succ?_eq_some_iff.1 succ
    rw [next_derive, minted_derive, List.length_append, List.length_singleton]
    omega
  · intro h line value counted _ _
    exact counted
  · rw [first, none]
    rfl

/-- The passes over a block leave the parent of its line as it is. -/
theorem parent_line_afterPasses {block : Tree} {l : Line} (onLine : block.line = .ok l)
    (passes : List (List Action)) :
    ∃ m, (block.afterPasses passes).line = .ok m ∧ m.parent = l.parent := by
  induction passes generalizing block l with
  | nil => exact ⟨l, onLine, rfl⟩
  | cons actions passes ih =>
    show ∃ m, ((Tree.afterPasses.onePass block actions).afterPasses passes).line = .ok m ∧ _
    cases bound : bind block with
    | error e =>
      rw [Tree.afterPasses.onePass, bound]
      exact ih onLine
    | ok start =>
      obtain ⟨m, onLine', parent⟩ := ((Continues.of_bind bound).run actions).onLine
      obtain ⟨m', onLine'', parent'⟩ := ih onLine'
      have origin : start.origin = l := by
        have := (Hoister.of_bind bound).2.1
        rw [onLine] at this
        cases this
        rfl
      rw [Tree.afterPasses.onePass, bound]
      exact ⟨m', onLine'', by rw [parent', parent, Hoister.base, origin]⟩

/-! ### Lines handed out -/

/-- The line that an action hands out with its outcome. The line of a path that was asked for on a
given line is not the hoister's. -/
def Action.handsOut (action : Action) : Outcome → Option Line
  | .line l => some l
  | .tree t =>
    match action with
    | .makePath _ (some _) => none
    | _ => t.line.toOption

def handedOut (h : Hoister) : List Action → List Line
  | [] => []
  | action :: actions =>
    ((h.step action).1.toOption.bind action.handsOut).toList ++ (h.step action).2.handedOut actions

theorem mem_minted_run {h : Hoister} {l : Line} (known : l ∈ h.minted) (actions : List Action) :
    l ∈ (h.run actions).2.minted :=
  run_invariant (P := fun h => l ∈ h.minted) (fun _ _ known _ => List.mem_append_left _ known)
    (fun _ _ _ known _ _ => known) known actions

private theorem mem_minted_of_freshLine {h h' : Hoister} {l : Line}
    (run : freshLine.run h = (.ok l, h')) : l ∈ h'.minted := by
  obtain ⟨next, -, rfl, rfl⟩ := freshLine_eq_ok_iff.1 run
  exact List.mem_append_right _ (List.mem_singleton_self _)

private theorem mem_minted_of_makeAssignment {h h' : Hoister} {value a : Tree} {l : Line}
    (run : (makeAssignment value).run h = (.ok a, h')) (onLine : a.line.toOption = some l) :
    l ∈ h'.minted := by
  obtain ⟨source, line, moved, -, choice, -, rfl⟩ := makeAssignment_of_ok run
  cases onLine
  exact choice.mem_minted

/-- What an action hands out is among the derived lines afterwards. -/
theorem mem_minted_of_handsOut {h h' : Hoister} {action : Action} {outcome : Outcome} {l : Line}
    (step : h.step action = (.ok outcome, h')) (out : action.handsOut outcome = some l) :
    l ∈ h'.minted := by
  cases action with
  | freshLine =>
    obtain ⟨line, run, rfl⟩ := HoistM.run_map_eq_ok_iff.1 step
    cases out
    exact mem_minted_of_freshLine run
  | lineFor t =>
    obtain ⟨line, run, rfl⟩ := HoistM.run_map_eq_ok_iff.1 step
    cases out
    obtain ⟨source, -, choice⟩ := lineFor_of_ok run
    exact choice.mem_minted
  | makePath name line =>
    obtain ⟨path, run, rfl⟩ := HoistM.run_map_eq_ok_iff.1 step
    cases line with
    | some line => cases out
    | none =>
      obtain ⟨line, fresh, rfl⟩ := HoistM.run_map_eq_ok_iff.1 run
      cases out
      exact mem_minted_of_freshLine fresh
  | makeAssignment value =>
    obtain ⟨a, run, rfl⟩ := HoistM.run_map_eq_ok_iff.1 step
    exact mem_minted_of_makeAssignment run out
  | inject value =>
    obtain ⟨a, run, rfl⟩ := HoistM.run_map_eq_ok_iff.1 step
    obtain ⟨h₁, made, rfl⟩ := inject_of_ok run
    rw [minted_insert]
    exact mem_minted_of_makeAssignment made out

theorem mem_minted_of_handedOut {h : Hoister} {l : Line} {actions : List Action}
    (out : l ∈ h.handedOut actions) : l ∈ (h.run actions).2.minted := by
  induction actions generalizing h with
  | nil => cases out
  | cons action actions ih =>
    show l ∈ ((h.step action).2.run actions).2.minted
    rcases List.mem_append.1 out with now | later
    · refine mem_minted_run ?_ actions
      rcases step : h.step action with ⟨_ | outcome, h'⟩
      · rw [step] at now
        cases now
      · rw [step, Option.mem_toList] at now
        exact mem_minted_of_handsOut step now
    · exact ih later

/-! ### Order across passes -/

theorem base_eq_of_bind {block : Tree} {passes : List (List Action)} {first start : Hoister}
    (bound : bind block = .ok first) (boundLater : bind (block.afterPasses passes) = .ok start) :
    start.base = first.base := by
  obtain ⟨-, onLine, -, -⟩ := of_bind bound
  obtain ⟨-, onLineLater, -, -⟩ := of_bind boundLater
  obtain ⟨m, onLine', parent⟩ := parent_line_afterPasses onLine passes
  rw [onLineLater] at onLine'
  cases onLine'
  exact parent

/-- At any moment of any pass over a block: the hoister at work has the base of every hoister that
was bound before; it has derived exactly the lines of that base with the suffixes from its first to
the one before its next; a new line will come after all that it handed out and after every
assignment of the block that is on a line of the base; and all its lines are between the base and
the next line of the source. -/
theorem derived_lines_in_order {block : Tree} {earlier later : List (List Action)}
    {actions : List Action} {first start h : Hoister}
    (bound : bind (block.afterPasses earlier) = .ok first)
    (boundLater : bind (block.afterPasses (earlier ++ later)) = .ok start)
    (ran : (start.run actions).2 = h) :
    (block.afterPasses earlier).line.map Line.parent = .ok first.base ∧
      start.base = first.base ∧ h.base = first.base ∧
      (∀ l, l ∈ h.minted ↔ ∃ k : Component, start.next.val ≤ k.val ∧ k.val < h.next.val ∧
        l = first.base.child k) ∧
      (∀ l h', freshLine.run h = (.ok l, h') →
        (∀ m ∈ h.minted, m < l) ∧ (∀ m ∈ start.handedOut actions, m < l) ∧
        ∀ a ∈ h.block.tagged "assignment", ∀ m, a.line = .ok m → m.isSynthetic →
          m.parent = first.base → m < l) ∧
      ∀ l ∈ h.minted, first.base < l ∧
        (l.source.val < 4294967295 → l < .real (.ofNat (l.source.val + 1))) := by
  subst ran
  rw [Tree.afterPasses, List.foldl_append] at boundLater
  have base : start.base = first.base := base_eq_of_bind bound boundLater
  have c : Continues start (start.run actions).2 := (Continues.of_bind boundLater).run actions
  refine ⟨?_, base, c.base.trans base, base ▸ c.mem_minted_iff, ?_, ?_⟩
  · rw [(of_bind bound).2.1]
    rfl
  · intro l h' fresh
    obtain ⟨next, -, rfl, -⟩ := freshLine_eq_ok_iff.1 fresh
    refine ⟨fun m known => c.lt_fresh known,
      fun m out => c.lt_fresh (mem_minted_of_handedOut out), ?_⟩
    intro a present m onLine synthetic parent
    exact c.assignment_lt_fresh present onLine synthetic (parent.trans base.symm)
  · intro l known
    refine ⟨?_, Line.lt_next_real⟩
    obtain ⟨k, -, -, rfl⟩ := (c.mem_minted_iff l).1 known
    rw [base]
    exact Line.lt_child first.base k

/-- The first pass injects and then fails; for the second one the block starts with the assignment
on line 12.1. -/
theorem derived_lines_in_order_regrown :
    ∃ first start h, bind (sayBlock.afterPasses []) = .ok first ∧
      bind (sayBlock.afterPasses ([] ++ [[.inject calledValue, .lineFor ⟨"path", []⟩]])) =
        .ok start ∧
      (start.run [.freshLine, .inject calledValue]).2 = h ∧
      h.block.line = .ok ⟨.clamp 12, [.clamp 1]⟩ ∧ h.base = first.base ∧
      h.minted = [⟨.clamp 12, [.clamp 2]⟩, ⟨.clamp 12, [.clamp 3]⟩] := by
  refine ⟨_, _, _, rfl, rfl, rfl, rfl, ?_, rfl⟩
  exact (@derived_lines_in_order sayBlock [] [[.inject calledValue, .lineFor ⟨"path", []⟩]]
    [.freshLine, .inject calledValue] _ _ _ rfl rfl rfl).2.2.1

end Hoister

end ScriptFrontend
