import ScriptFrontend.Hoist.Lemmas
import ScriptFrontend.Proofs.Tree.Leftmost

/-!
# What one step does to a hoister

A step can do two things to a hoister: derive the next line, and put an assignment on a derived
line into the block. A step that fails does neither. Everything that holds along a run is therefore
shown for these two changes, and `run_invariant` lifts it to the run.
-/

namespace ScriptFrontend

namespace Hoister

/-- The hoister after it has derived a line; `next` is the suffix for the line after that. -/
def derive (h : Hoister) (next : Component) : Hoister :=
  { h with
    next
    minted := h.minted ++ [h.base.child h.next]
    events := h.events ++ [h.mintEvent (h.base.child h.next)] }

@[simp] theorem next_derive (h : Hoister) (next : Component) : (h.derive next).next = next := rfl

@[simp] theorem minted_derive (h : Hoister) (next : Component) :
    (h.derive next).minted = h.minted ++ [h.base.child h.next] := rfl

@[simp] theorem events_derive (h : Hoister) (next : Component) :
    (h.derive next).events = h.events ++ [h.mintEvent (h.base.child h.next)] := rfl

theorem mintEvent_derive (h : Hoister) (next : Component) :
    (h.derive next).mintEvent = h.mintEvent := rfl

@[simp] theorem minted_insert (h : Hoister) (a : Tree) : (h.insert a).minted = h.minted := rfl

@[simp] theorem events_insert (h : Hoister) (a : Tree) : (h.insert a).events = h.events := rfl

/-! ### Fresh and chosen lines -/

theorem freshLine_eq_ok_iff {h h' : Hoister} {l : Line} :
    freshLine.run h = (.ok l, h') ↔
      ∃ next, h.next.succ? = some next ∧ l = h.base.child h.next ∧ h' = h.derive next := by
  rw [run_freshLine]
  cases h.next.succ? <;> simp [derive, eq_comm]

theorem freshLine_of_error {h h' : Hoister} {e : HoistError}
    (run : freshLine.run h = (.error e, h')) : h' = h := by
  rw [run_freshLine] at run
  split at run
  · exact (Prod.mk.inj run).2.symm
  · cases run

/-- How a hoister chooses the line for a tree that is on the line `source`: it keeps a line that it
derived itself, and derives a new one in place of any other. -/
inductive Chooses (h : Hoister) (source : Line) : Line → Hoister → Prop
  | kept : source ∈ h.minted → Chooses h source source h
  | fresh {next : Component} : source ∉ h.minted → h.next.succ? = some next →
      Chooses h source (h.base.child h.next) (h.derive next)

theorem Chooses.mem_minted {h h' : Hoister} {source line : Line} (c : h.Chooses source line h') :
    line ∈ h'.minted := by
  cases c with
  | kept known => exact known
  | fresh _ _ => exact List.mem_append_right _ (List.mem_singleton_self _)

theorem lineFor_of_ok {h h' : Hoister} {t : Tree} {line : Line}
    (run : (lineFor t).run h = (.ok line, h')) :
    ∃ source, t.line = .ok source ∧ h.Chooses source line h' := by
  rw [run_lineFor] at run
  split at run
  · cases run
  · rename_i source onSource
    refine ⟨source, onSource, ?_⟩
    split at run
    · cases run
      exact .kept ‹_›
    · obtain ⟨next, succ, rfl, rfl⟩ := freshLine_eq_ok_iff.1 run
      exact .fresh ‹_› succ

theorem lineFor_of_error {h h' : Hoister} {t : Tree} {e : HoistError}
    (run : (lineFor t).run h = (.error e, h')) : h' = h := by
  rw [run_lineFor] at run
  split at run
  · exact (Prod.mk.inj run).2.symm
  · split at run
    · cases run
    · exact freshLine_of_error run

/-! ### Assignments -/

theorem makeAssignment_of_ok {h h' : Hoister} {value a : Tree}
    (run : (makeAssignment value).run h = (.ok a, h')) :
    ∃ source line moved, value.line = .ok source ∧ h.Chooses source line h' ∧
      value.mapFirstToken (fun token => { token with line }) = .ok moved ∧
      a = assignmentOn line moved := by
  rw [run_makeAssignment] at run
  split at run
  · cases run
  · rename_i line h₁ chosen
    obtain ⟨source, onSource, choice⟩ := lineFor_of_ok chosen
    split at run
    · cases run
    · rename_i moved relocated
      cases run
      exact ⟨source, line, moved, onSource, choice, relocated, rfl⟩

/-- The leftmost token is looked up a second time to be moved, and cannot be missing then. -/
theorem makeAssignment_of_error {h h' : Hoister} {value : Tree} {e : HoistError}
    (run : (makeAssignment value).run h = (.error e, h')) : h' = h := by
  rw [run_makeAssignment] at run
  split at run
  · rename_i failed
    cases run
    exact lineFor_of_error failed
  · rename_i line h₁ chosen
    obtain ⟨source, onSource, -⟩ := lineFor_of_ok chosen
    obtain ⟨moved, relocated⟩ :=
      Tree.mapFirstToken_of_line onSource fun token => { token with line }
    rw [relocated] at run
    cases run

theorem inject_of_ok {h h' : Hoister} {value a : Tree} (run : (inject value).run h = (.ok a, h')) :
    ∃ h₁, (makeAssignment value).run h = (.ok a, h₁) ∧ h' = h₁.insert a := by
  rw [run_inject] at run
  split at run
  · cases run
  · rename_i made
    cases run
    exact ⟨_, made, rfl⟩

theorem inject_of_error {h h' : Hoister} {value : Tree} {e : HoistError}
    (run : (inject value).run h = (.error e, h')) : h' = h := by
  rw [run_inject] at run
  split at run
  · rename_i failed
    cases run
    exact makeAssignment_of_error failed
  · cases run

theorem line_of_relocated {value moved : Tree} {line : Line}
    (relocated : value.mapFirstToken (fun token => { token with line }) = .ok moved)
    {source : Line} (onSource : value.line = .ok source) : moved.line = .ok line := by
  obtain ⟨token, first, -⟩ := Tree.line_eq_ok_iff.1 onSource
  refine Tree.line_eq_ok_iff.2 ⟨{ token with line }, ?_, rfl⟩
  rw [Tree.leftmost_of_mapFirstToken relocated, first, Option.map_some]

@[simp] theorem line_assignmentOn (line : Line) (value : Tree) :
    (assignmentOn line value).line = .ok line := rfl

/-! ### Steps and runs -/

/-- An injection that came about: the hoister before it, the value and its assignment. -/
structure Injection where
  before : Hoister
  value : Tree
  assignment : Tree

/-- The injection that an action brings about, if it does. -/
def injected? (h : Hoister) : Action → Option Injection
  | .inject value => ((inject value).run h).1.toOption.map fun a => ⟨h, value, a⟩
  | _ => none

def injections (h : Hoister) : List Action → List Injection
  | [] => []
  | action :: actions => (h.injected? action).toList ++ (h.step action).2.injections actions

theorem of_injected?_eq_some {h : Hoister} {action : Action} {i : Injection}
    (made : h.injected? action = some i) :
    i.before = h ∧ (inject i.value).run h = (.ok i.assignment, (h.step action).2) := by
  cases action with
  | inject value =>
    rw [injected?] at made
    rcases run : (inject value).run h with ⟨_ | a, h'⟩ <;> rw [run] at made <;> cases made
    refine ⟨rfl, ?_⟩
    rw [step, Action.perform, HoistM.run_map, run]
  | _ => cases made

/-- A hoister as it was, or after it has derived one line. -/
inductive Advances (h : Hoister) : Hoister → Prop
  | kept : Advances h h
  | derived {next : Component} : h.next.succ? = some next → Advances h (h.derive next)

theorem Advances.block_eq {h h' : Hoister} (advances : h.Advances h') : h'.block = h.block := by
  cases advances <;> rfl

theorem Chooses.advances {h h' : Hoister} {source line : Line} (c : h.Chooses source line h') :
    h.Advances h' := by
  cases c with
  | kept _ => exact .kept
  | fresh _ succ => exact .derived succ

theorem advances_freshLine (h : Hoister) : h.Advances (freshLine.run h).2 := by
  rcases run : freshLine.run h with ⟨_ | l, h'⟩
  · rw [freshLine_of_error run]
    exact .kept
  · obtain ⟨next, succ, -, rfl⟩ := freshLine_eq_ok_iff.1 run
    exact .derived succ

theorem advances_lineFor (t : Tree) (h : Hoister) : h.Advances ((lineFor t).run h).2 := by
  rcases run : (lineFor t).run h with ⟨_ | line, h'⟩
  · rw [lineFor_of_error run]
    exact .kept
  · obtain ⟨source, -, choice⟩ := lineFor_of_ok run
    exact choice.advances

theorem advances_makeAssignment (value : Tree) (h : Hoister) :
    h.Advances ((makeAssignment value).run h).2 := by
  rcases run : (makeAssignment value).run h with ⟨_ | a, h'⟩
  · rw [makeAssignment_of_error run]
    exact .kept
  · obtain ⟨source, line, moved, -, choice, -, -⟩ := makeAssignment_of_ok run
    exact choice.advances

/-- A step that brings about no injection can only derive a line. -/
theorem advances_step {h : Hoister} {action : Action} (made : h.injected? action = none) :
    h.Advances (h.step action).2 := by
  cases action with
  | freshLine =>
    rw [step, Action.perform, HoistM.run_map]
    exact advances_freshLine h
  | lineFor t =>
    rw [step, Action.perform, HoistM.run_map]
    exact advances_lineFor t h
  | makePath name line =>
    rw [step, Action.perform, HoistM.run_map]
    cases line with
    | some line =>
      rw [run_makePath_line]
      exact .kept
    | none =>
      rw [run_makePath_fresh]
      exact advances_freshLine h
  | makeAssignment value =>
    rw [step, Action.perform, HoistM.run_map]
    exact advances_makeAssignment value h
  | inject value =>
    rw [step, Action.perform, HoistM.run_map]
    rcases run : (inject value).run h with ⟨_ | a, h'⟩
    · rw [inject_of_error run]
      exact .kept
    · rw [injected?, run] at made
      cases made

section Invariant

variable {P : Hoister → Prop}

theorem Advances.invariant
    (derived : ∀ h next, P h → h.next.succ? = some next → P (h.derive next))
    {h h' : Hoister} (holds : P h) (advances : h.Advances h') : P h' := by
  cases advances with
  | kept => exact holds
  | derived succ => exact derived h _ holds succ

/-- What both kinds of change keep is kept by every step. -/
theorem step_invariant
    (derived : ∀ h next, P h → h.next.succ? = some next → P (h.derive next))
    (inserted : ∀ h line value, P h → line ∈ h.minted → value.line = .ok line →
      P (h.insert (assignmentOn line value)))
    {h : Hoister} (holds : P h) (action : Action) : P (h.step action).2 := by
  cases made : h.injected? action with
  | none => exact (advances_step made).invariant derived holds
  | some i =>
    obtain ⟨h₁, assigned, after⟩ := inject_of_ok (of_injected?_eq_some made).2
    obtain ⟨source, line, moved, onSource, choice, relocated, same⟩ := makeAssignment_of_ok assigned
    rw [after, same]
    exact inserted h₁ line moved (choice.advances.invariant derived holds) choice.mem_minted
      (line_of_relocated relocated onSource)

theorem run_invariant
    (derived : ∀ h next, P h → h.next.succ? = some next → P (h.derive next))
    (inserted : ∀ h line value, P h → line ∈ h.minted → value.line = .ok line →
      P (h.insert (assignmentOn line value)))
    {h : Hoister} (holds : P h) (actions : List Action) : P (h.run actions).2 := by
  induction actions generalizing h with
  | nil => exact holds
  | cons action actions ih => exact ih (step_invariant derived inserted holds action)

end Invariant

end Hoister

end ScriptFrontend
