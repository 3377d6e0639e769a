import ScriptFrontend.Proofs.Hoist.Derived

/-!
# Steps that fail

A step fails for one of two reasons: its tree has no leftmost token, or it needs a new line when the
suffixes are used up. Either way the hoister is left as it was, block, counter, derived lines and
log. The looked-up token is looked up again when the line is there, so that this holds rests on the
two look-ups finding the same token.

The last suffix of all, 4294967295, is never handed out: the counter is moved on before a line is
logged and counts as derived, and cannot be moved on from there.
-/

namespace ScriptFrontend

namespace Hoister

/-- The tree that an action wants the leftmost token of. -/
def Action.subject? : Action → Option Tree
  | .freshLine | .makePath _ _ => none
  | .lineFor tree => some tree
  | .makeAssignment value | .inject value => some value

/-- The action cannot do with a line that it is given or that was derived before. -/
def NeedsLine (h : Hoister) : Action → Prop
  | .freshLine => True
  | .makePath _ line => line = none
  | .lineFor tree => ∃ l, tree.line = .ok l ∧ l ∉ h.minted
  | .makeAssignment value | .inject value => ∃ l, value.line = .ok l ∧ l ∉ h.minted

/-! ### Failures of the operations -/

theorem freshLine_eq_error_iff {h : Hoister} {e : HoistError} :
    (freshLine.run h).1 = .error e ↔ h.next.succ? = none ∧ e = .suffixesExhausted := by
  rw [run_freshLine]
  cases h.next.succ? <;> simp [eq_comm]

theorem lineFor_eq_error_iff {h : Hoister} {t : Tree} {e : HoistError} :
    ((lineFor t).run h).1 = .error e ↔
      (Child.leftmostIn? t.children = none ∧ e = .position (.noToken t.tag)) ∨
        (∃ l, t.line = .ok l ∧ l ∉ h.minted) ∧ h.next.succ? = none ∧ e = .suffixesExhausted := by
  rw [run_lineFor]
  cases onLine : t.line with
  | error cause =>
    obtain ⟨none, rfl⟩ := Tree.line_eq_error_iff.1 onLine
    simp [none, eq_comm]
  | ok l =>
    have some : Child.leftmostIn? t.children ≠ none := by
      obtain ⟨token, first, -⟩ := Tree.line_eq_ok_iff.1 onLine
      simp [first]
    by_cases known : l ∈ h.minted
    · simp [some, known]
    · simp [some, known, freshLine_eq_error_iff]

theorem makeAssignment_eq_error_iff {h : Hoister} {value : Tree} {e : HoistError} :
    ((makeAssignment value).run h).1 = .error e ↔ ((lineFor value).run h).1 = .error e := by
  rw [run_makeAssignment]
  rcases chosen : (lineFor value).run h with ⟨_ | line, h'⟩
  · simp
  · obtain ⟨source, onSource, -⟩ := lineFor_of_ok chosen
    obtain ⟨moved, relocated⟩ :=
      Tree.mapFirstToken_of_line onSource fun token => { token with line }
    simp [relocated]

theorem inject_eq_error_iff {h : Hoister} {value : Tree} {e : HoistError} :
    ((inject value).run h).1 = .error e ↔ ((makeAssignment value).run h).1 = .error e := by
  rw [run_inject]
  rcases (makeAssignment value).run h with ⟨_ | a, h'⟩ <;> simp

/-! ### Failures of steps -/

private theorem map_eq_error_iff {ε α β : Type} {f : α → β} {x : Except ε α} {e : ε} :
    x.map f = .error e ↔ x = .error e := by
  cases x <;> simp [Except.map]

theorem step_eq_error_iff {h : Hoister} {action : Action} {e : HoistError} :
    (h.step action).1 = .error e ↔
      (∃ t, action.subject? = some t ∧ Child.leftmostIn? t.children = none ∧
        e = .position (.noToken t.tag)) ∨
      h.NeedsLine action ∧ h.next.succ? = none ∧ e = .suffixesExhausted := by
  cases action with
  | freshLine =>
    rw [step, Action.perform, HoistM.run_map, map_eq_error_iff, freshLine_eq_error_iff]
    simp [Action.subject?, NeedsLine]
  | lineFor t =>
    rw [step, Action.perform, HoistM.run_map, map_eq_error_iff, lineFor_eq_error_iff]
    simp [Action.subject?, NeedsLine]
  | makePath name line =>
    rw [step, Action.perform, HoistM.run_map, map_eq_error_iff]
    cases line with
    | some line => simp [run_makePath_line, Action.subject?, NeedsLine]
    | none =>
      rw [run_makePath_fresh, map_eq_error_iff, freshLine_eq_error_iff]
      simp [Action.subject?, NeedsLine]
  | makeAssignment value =>
    rw [step, Action.perform, HoistM.run_map, map_eq_error_iff, makeAssignment_eq_error_iff,
      lineFor_eq_error_iff]
    simp [Action.subject?, NeedsLine]
  | inject value =>
    rw [step, Action.perform, HoistM.run_map, map_eq_error_iff, inject_eq_error_iff,
      makeAssignment_eq_error_iff, lineFor_eq_error_iff]
    simp [Action.subject?, NeedsLine]

theorem step_of_error {h h' : Hoister} {action : Action} {e : HoistError}
    (failed : h.step action = (.error e, h')) : h' = h := by
  cases action with
  | freshLine => exact freshLine_of_error (HoistM.run_map_eq_error_iff.1 failed)
  | lineFor t => exact lineFor_of_error (HoistM.run_map_eq_error_iff.1 failed)
  | makePath name line =>
    replace failed := HoistM.run_map_eq_error_iff.1 failed
    cases line with
    | some line =>
      rw [run_makePath_line] at failed
      cases failed
    | none => exact freshLine_of_error (HoistM.run_map_eq_error_iff.1 failed)
  | makeAssignment value => exact makeAssignment_of_error (HoistM.run_map_eq_error_iff.1 failed)
  | inject value => exact inject_of_error (HoistM.run_map_eq_error_iff.1 failed)

/-! ### Lines that steps derive -/

theorem Advances.logged {h h' : Hoister} (advances : h.Advances h') :
    h'.minted = h.minted ∧ h'.events = h.events ∨
      h'.minted = h.minted ++ [h.base.child h.next] ∧
        h'.events = h.events ++ [h.mintEvent (h.base.child h.next)] := by
  cases advances with
  | kept => exact .inl ⟨rfl, rfl⟩
  | derived _ => exact .inr ⟨rfl, rfl⟩

theorem logged_step (h : Hoister) (action : Action) :
    (h.step action).2.minted = h.minted ∧ (h.step action).2.events = h.events ∨
      (h.step action).2.minted = h.minted ++ [h.base.child h.next] ∧
        (h.step action).2.events = h.events ++ [h.mintEvent (h.base.child h.next)] := by
  cases made : h.injected? action with
  | none => exact (advances_step made).logged
  | some i =>
    obtain ⟨rfl, run⟩ := of_injected?_eq_some made
    obtain ⟨h₁, assigned, after⟩ := inject_of_ok run
    have advances := advances_makeAssignment i.value i.before
    rw [assigned] at advances
    rw [after, minted_insert, events_insert]
    exact advances.logged

/-- The log of a hoister has one event for each line that was derived, in the same order. -/
theorem events_run {block : Tree} {start : Hoister} (bound : bind block = .ok start)
    (actions : List Action) :
    (start.run actions).2.events =
      (start.run actions).2.minted.map (start.run actions).2.mintEvent := by
  apply run_invariant (P := fun h => h.events = h.minted.map h.mintEvent)
  · intro h next logged _
    rw [events_derive, minted_derive, mintEvent_derive, logged, List.map_append]
    rfl
  · intro h line value logged _ _
    exact logged
  · rw [events_of_bind bound, (of_bind bound).2.2.2]
    rfl

/-- The counter of a hoister has passed every suffix that it used. -/
theorem Continues.last_lt_max {start h : Hoister} (c : Continues start h) {l : Line}
    (known : l ∈ h.minted) : l.last.val < 4294967295 := by
  obtain ⟨k, -, lt, rfl⟩ := (c.mem_minted_iff l).1 known
  have := h.next.le_max
  rw [Line.last_child]
  omega

/-- At any moment of a run a step fails for two reasons only: its tree has no leftmost token, or it
needs a line and the next suffix would be the last. A failed step leaves the whole hoister as it
was, with the events that it had put into the log for the lines derived by then. Any other step
derives at most one line and logs just that, and no line with the last suffix is ever derived or
handed out. -/
theorem step_atomic {block : Tree} {start h : Hoister} {actions : List Action}
    (bound : bind block = .ok start) (ran : (start.run actions).2 = h) (action : Action) :
    (∀ e, (h.step action).1 = .error e ↔
      (∃ t, action.subject? = some t ∧ Child.leftmostIn? t.children = none ∧
        e = .position (.noToken t.tag)) ∨
      h.NeedsLine action ∧ h.next.val = 4294967295 ∧ e = .suffixesExhausted) ∧
    (∀ e, (h.step action).1 = .error e → (h.step action).2 = h) ∧
    h.events = h.minted.map h.mintEvent ∧
    ((h.step action).2.minted = h.minted ∧ (h.step action).2.events = h.events ∨
      (h.step action).2.minted = h.minted ++ [h.base.child h.next] ∧
        (h.step action).2.events = h.events ++ [h.mintEvent (h.base.child h.next)]) ∧
    (∀ l ∈ (h.step action).2.minted, l.last.val < 4294967295) ∧
    ∀ outcome l, (h.step action).1 = .ok outcome → action.handsOut outcome = some l →
      l.last.val < 4294967295 := by
  subst ran
  have c : Continues start ((start.run actions).2.step action).2 :=
    ((Continues.of_bind bound).run actions).run [action]
  refine ⟨fun e => ?_, fun e failed => ?_, events_run bound actions, logged_step _ action,
    fun l => c.last_lt_max, ?_⟩
  · rw [step_eq_error_iff, Component.succ?_eq_none_iff]
  · exact step_of_error (Prod.ext failed rfl)
  · intro outcome l done out
    exact c.last_lt_max (mem_minted_of_handsOut (Prod.ext done rfl) out)

/-- The block of a statement `say f` on line 12 with an assignment on the last line but one that can
be derived from line 12. -/
def fullBlock : Tree :=
  ⟨"block", .ofTree (assignmentOn ((Line.real 12).child (.clamp 4294967294)) calledValue) ::
    sayBlock.children⟩

theorem step_atomic_full :
    ∃ start, bind fullBlock = .ok start ∧
      (start.step (.inject calledValue)).1 = .error .suffixesExhausted ∧
      (start.step (.inject calledValue)).2 = start := by
  obtain ⟨-, kept, -⟩ := @step_atomic fullBlock _ _ [] rfl rfl (.inject calledValue)
  exact ⟨_, rfl, rfl, kept _ rfl⟩

end Hoister

end ScriptFrontend
