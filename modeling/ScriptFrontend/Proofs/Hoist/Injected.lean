import ScriptFrontend.Proofs.Hoist.Placement

/-!
# Assignments injected by one hoister

The assignments that a hoister injects stand in its block in the order in which they were injected.
Their lines ascend as long as the values come from lines that the hoister did not derive. A value on
a line of the hoister keeps that line, so its assignment has the line, and the target, of whatever
the line was derived for. The leftmost token of a reference to an assignment is such a value's.
-/

namespace ScriptFrontend

namespace Tree

/-- Both trees are on lines, and the line of the first one comes before. -/
def Precedes (s t : Tree) : Prop := ∃ l m, s.line = .ok l ∧ t.line = .ok m ∧ l < m

theorem precedes_iff {s t : Tree} {l m : Line} (onLine : s.line = .ok l) (onLine' : t.line = .ok m) :
    s.Precedes t ↔ l < m := by
  simp [Precedes, onLine, onLine']

theorem Precedes.line_ne {s t : Tree} (lt : s.Precedes t) : t.line ≠ s.line := by
  obtain ⟨l, m, onLine, onLine', lt⟩ := lt
  rw [onLine, onLine']
  intro same
  exact Line.ne_of_lt lt (Except.ok.inj same).symm

end Tree

namespace Hoister

/-- The tree is on a line that the hoister derived. -/
def Knows (h : Hoister) (t : Tree) : Prop := ∃ l ∈ h.minted, t.line = .ok l

/-! ### Lines -/

namespace Continues

variable {start h h' : Hoister} {source line l : Line}

theorem chosen_eq_iff (c : Continues start h) (choice : h.Chooses source line h')
    (known : l ∈ h.minted) : line = l ↔ source = l := by
  cases choice with
  | kept _ => rfl
  | fresh unknown _ =>
    constructor
    · intro same
      exact absurd same.symm (Line.ne_of_lt (c.lt_fresh known))
    · rintro rfl
      exact absurd known unknown

theorem lt_chosen_iff (c : Continues start h) (choice : h.Chooses source line h')
    (known : l ∈ h.minted) : l < line ↔ (source ∈ h.minted → l < source) := by
  cases choice with
  | kept mine =>
    constructor
    · exact fun lt _ => lt
    · exact fun lt => lt mine
  | fresh unknown _ =>
    constructor
    · exact fun _ mine => absurd mine unknown
    · exact fun _ => c.lt_fresh known

end Continues

/-! ### Pairs of injections -/

theorem knows_iff {h : Hoister} {t : Tree} {l : Line} (onLine : t.line = .ok l) :
    h.Knows t ↔ l ∈ h.minted := by
  simp [Knows, onLine]

/-- How an injection stands to an earlier one. The three answers depend on one thing only: the line
that the later value was on when it came in. -/
structure Follows (i j : Injection) : Prop where
  line_eq_iff : j.assignment.line = i.assignment.line ↔ j.value.line = i.assignment.line
  target_eq_iff : target? j.assignment = target? i.assignment ↔ j.value.line = i.assignment.line
  precedes_iff : i.assignment.Precedes j.assignment ↔
    (j.before.Knows j.value → i.assignment.Precedes j.value)

/-- An injection that came about is of a value on some line, and its assignment is on the line that
the hoister chooses for that. -/
theorem of_inject {i : Injection} {h' : Hoister}
    (run : (inject i.value).run i.before = (.ok i.assignment, h')) :
    ∃ source line h₁, i.value.line = .ok source ∧ i.assignment.line = .ok line ∧
      target? i.assignment = some (targetName line) ∧ i.before.Chooses source line h₁ ∧
      h'.minted = h₁.minted := by
  obtain ⟨h₁, assigned, rfl⟩ := inject_of_ok run
  obtain ⟨source, line, moved, onSource, choice, -, same⟩ := makeAssignment_of_ok assigned
  rw [same, target?_assignmentOn]
  exact ⟨source, line, h₁, onSource, rfl, rfl, choice, rfl⟩

theorem of_mem_injections {start h : Hoister} (c : Continues start h) {actions : List Action}
    {j : Injection} (made : j ∈ h.injections actions) :
    Continues start j.before ∧ (∀ l ∈ h.minted, l ∈ j.before.minted) ∧
      ∃ h', (inject j.value).run j.before = (.ok j.assignment, h') := by
  induction actions generalizing h with
  | nil => cases made
  | cons action actions ih =>
    rcases List.mem_append.1 made with now | later
    · obtain ⟨rfl, run⟩ := of_injected?_eq_some (Option.mem_toList.1 now)
      exact ⟨c, fun l known => known, _, run⟩
    · obtain ⟨c', kept, run⟩ := ih (c.run [action]) later
      exact ⟨c', fun l known => kept l (mem_minted_run known [action]), run⟩

theorem follows_of_known {start : Hoister} {i j : Injection} {hi hj : Hoister}
    (runI : (inject i.value).run i.before = (.ok i.assignment, hi))
    (runJ : (inject j.value).run j.before = (.ok j.assignment, hj))
    (c : Continues start j.before) (kept : ∀ l ∈ hi.minted, l ∈ j.before.minted) :
    Follows i j := by
  obtain ⟨_, l, h₁, -, onLineI, targetI, choiceI, minted⟩ := of_inject runI
  obtain ⟨source, line, h₂, onSource, onLineJ, targetJ, choiceJ, -⟩ := of_inject runJ
  have known : l ∈ j.before.minted := by
    refine kept l ?_
    rw [minted]
    exact choiceI.mem_minted
  refine ⟨?_, ?_, ?_⟩
  · rw [onLineI, onLineJ, onSource, Except.ok.injEq, Except.ok.injEq]
    exact c.chosen_eq_iff choiceJ known
  · rw [targetI, targetJ, onSource, onLineI, Option.some.injEq, Except.ok.injEq,
      ← c.chosen_eq_iff choiceJ known]
    exact ⟨targetName_injective, congrArg targetName⟩
  · rw [Tree.precedes_iff onLineI onLineJ, Tree.precedes_iff onLineI onSource, knows_iff onSource]
    exact c.lt_chosen_iff choiceJ known

theorem injections_pairwise_follows {start h : Hoister} (c : Continues start h)
    (actions : List Action) : (h.injections actions).Pairwise Follows := by
  induction actions generalizing h with
  | nil => exact .nil
  | cons action actions ih =>
    have rest := ih (c.run [action])
    cases made : h.injected? action with
    | none =>
      rw [injections, made]
      exact rest
    | some i =>
      obtain ⟨rfl, runI⟩ := of_injected?_eq_some made
      rw [injections, made]
      -- What `i` leaves behind for later injections is that its line is a derived one.
      refine List.pairwise_cons.2 ⟨fun j later => ?_, rest⟩
      obtain ⟨c', kept, h', runJ⟩ := of_mem_injections (c.run [action]) later
      exact follows_of_known runI runJ c' kept

/-- An injection derives no line but that of its assignment. -/
theorem mem_minted_step_inject {h : Hoister} {value : Tree} {l : Line}
    (known : l ∈ (h.step (.inject value)).2.minted) :
    l ∈ h.minted ∨ ∃ i, h.injected? (.inject value) = some i ∧ i.assignment.line = .ok l := by
  rcases run : (inject value).run h with ⟨e | a, h'⟩
  · rw [step, Action.perform, HoistM.run_map, run, inject_of_error run] at known
    exact .inl known
  · have made : h.injected? (.inject value) = some ⟨h, value, a⟩ := by
      rw [injected?, run]
      rfl
    obtain ⟨source, line, h₁, -, onLine, -, choice, minted⟩ :=
      of_inject (of_injected?_eq_some made).2
    rw [minted] at known
    cases choice with
    | kept _ => exact .inl known
    | fresh _ _ =>
      rcases List.mem_append.1 known with before | now
      · exact .inl before
      · exact .inr ⟨_, made, onLine.trans (by rw [List.mem_singleton.1 now])⟩

/-- In a run of injections only, no value is on a derived line if none is on the line of an earlier
assignment. -/
theorem not_knows_of_unused {h : Hoister} {actions : List Action}
    (only : ∀ action ∈ actions, ∃ value, action = .inject value)
    (unknown : ∀ j ∈ h.injections actions, ¬ h.Knows j.value)
    (unused : (h.injections actions).Pairwise fun i j => j.value.line ≠ i.assignment.line) :
    ∀ j ∈ h.injections actions, ¬ j.before.Knows j.value := by
  induction actions generalizing h with
  | nil =>
    intro j made
    cases made
  | cons action actions ih =>
    obtain ⟨value, rfl⟩ := only action List.mem_cons_self
    obtain ⟨-, unused', across⟩ := List.pairwise_append.1 unused
    intro j made
    rcases List.mem_append.1 made with now | later
    · obtain ⟨rfl, -⟩ := of_injected?_eq_some (Option.mem_toList.1 now)
      exact unknown j made
    · refine ih (fun action mem => only action (List.mem_cons_of_mem _ mem)) ?_ unused' j later
      rintro j later ⟨l, known, onLine⟩
      rcases mem_minted_step_inject known with before | ⟨i, now, onLine'⟩
      · exact unknown j (List.mem_append_right _ later) ⟨l, before, onLine⟩
      · exact across i (Option.mem_toList.2 now) j later (onLine.trans onLine'.symm)

/-- The assignments that a run of a hoister injects stand in order in front of the last child of its
block. Two of them share their line, and likewise their target, just when the value of the later one
was on the line of the earlier one already. Their lines ascend just when every value that was on a
line of the hoister was on a later one than those of all assignments before; where the run does
nothing but inject, just when no value was on the line of an assignment before. -/
theorem injections_in_order_iff {block : Tree} {start : Hoister} (bound : bind block = .ok start)
    (actions : List Action) :
    (∃ cs last, block.children = cs ++ [last] ∧ (start.run actions).2.block.children =
      cs ++ (start.injections actions).map (Child.ofTree ·.assignment) ++ [last]) ∧
    ((start.injections actions).Pairwise fun i j =>
      (j.assignment.line = i.assignment.line ↔ j.value.line = i.assignment.line) ∧
      (target? j.assignment = target? i.assignment ↔ j.value.line = i.assignment.line)) ∧
    (((start.injections actions).Pairwise fun i j => i.assignment.Precedes j.assignment) ↔
      (start.injections actions).Pairwise fun i j =>
        j.before.Knows j.value → i.assignment.Precedes j.value) ∧
    ((∀ action ∈ actions, ∃ value, action = .inject value) →
      (((start.injections actions).Pairwise fun i j => i.assignment.Precedes j.assignment) ↔
        (start.injections actions).Pairwise fun i j => j.value.line ≠ i.assignment.line)) := by
  have follows := injections_pairwise_follows (Continues.of_bind bound) actions
  obtain ⟨rfl, onLine, -, none⟩ := of_bind bound
  have ascends : ((start.injections actions).Pairwise fun i j =>
        i.assignment.Precedes j.assignment) ↔
      (start.injections actions).Pairwise fun i j =>
        j.before.Knows j.value → i.assignment.Precedes j.value :=
    ⟨List.Pairwise.imp₂ (fun _ _ f => f.precedes_iff.1) follows,
      List.Pairwise.imp₂ (fun _ _ f => f.precedes_iff.2) follows⟩
  refine ⟨?_, follows.imp fun f => ⟨f.line_eq_iff, f.target_eq_iff⟩, ascends, fun only => ?_⟩
  · obtain ⟨cs, last, children⟩ := children_eq_concat onLine
    exact ⟨cs, last, children, children_run children actions⟩
  · constructor
    · exact List.Pairwise.imp₂ (fun _ _ f lt same => lt.line_ne (f.line_eq_iff.2 same)) follows
    · intro unused
      have unknown : ∀ t, ¬ start.Knows t := by
        rintro t ⟨l, known, -⟩
        rw [none] at known
        cases known
      have fresh := not_knows_of_unused only (fun j _ => unknown j.value) unused
      exact ascends.2 (unused.imp_of_mem fun _ made _ knows => absurd knows (fresh _ made))

/-- The same value twice, from the line of the statement. -/
theorem injections_in_order_iff_plain :
    ∃ start, bind sayBlock = .ok start ∧
      (start.injections [.inject calledValue, .inject calledValue]).Pairwise fun i j =>
        i.assignment.Precedes j.assignment := by
  refine ⟨_, rfl, ((@injections_in_order_iff sayBlock _ rfl _).2.2.2 ?_).2 ?_⟩
  · intro action mem
    exact ⟨calledValue, by simpa using mem⟩
  · refine List.pairwise_pair.2 ?_
    show (.ok (.real 12) : Except PositionError Line) ≠ .ok ((Line.real 12).child (.clamp 1))
    rw [Ne, Except.ok.injEq]
    decide

/-- A value that starts with a reference to an assignment of the same hoister is assigned to the
target of that assignment, on its line. -/
theorem injected_reference_shares_line :
    ∃ start first second h, bind sayBlock = .ok start ∧
      start.run [.inject calledValue,
          .inject ⟨"expression", [.ofTree (pathOn ((Line.real 12).child (.clamp 1)) "p-12.1")]⟩] =
        ([.ok (.tree first), .ok (.tree second)], h) ∧
      referenceTo? first = some (pathOn ((Line.real 12).child (.clamp 1)) "p-12.1") ∧
      first.line = second.line ∧ target? first = target? second ∧ ¬ first.Precedes second := by
  refine ⟨_, _, _, _, rfl, rfl, ?_, rfl, rfl, fun lt => lt.line_ne rfl⟩
  decide

end Hoister

end ScriptFrontend
