import ScriptFrontend.Hoist.Action

/-!
# What the operations of a hoister do

Each operation is given as a function of the hoister that it runs on: its answer, and the hoister
afterwards.
-/

namespace ScriptFrontend

namespace HoistM

variable {α β : Type}

@[simp] theorem run_pure (a : α) (h : Hoister) : (pure a : HoistM α).run h = (.ok a, h) := rfl

@[simp] theorem run_throw (e : HoistError) (h : Hoister) :
    (throw e : HoistM α).run h = (.error e, h) := rfl

@[simp] theorem run_get (h : Hoister) : (get : HoistM Hoister).run h = (.ok h, h) := rfl

@[simp] theorem run_set (h h' : Hoister) : (set h' : HoistM PUnit).run h = (.ok ⟨⟩, h') := rfl

@[simp] theorem run_modify (f : Hoister → Hoister) (h : Hoister) :
    (modify f : HoistM PUnit).run h = (.ok ⟨⟩, f h) := rfl

theorem run_bind (x : HoistM α) (f : α → HoistM β) (h : Hoister) :
    (x >>= f).run h =
      match x.run h with
      | (.ok a, h) => (f a).run h
      | (.error e, h) => (.error e, h) := by
  simp only [run, ExceptT.run_bind, StateT.run_bind]
  rcases (ExceptT.run x).run h with ⟨_ | _, h⟩ <;> rfl

theorem run_map (f : α → β) (x : HoistM α) (h : Hoister) :
    (f <$> x).run h = ((x.run h).1.map f, (x.run h).2) := by
  rw [map_eq_pure_bind, run_bind]
  rcases x.run h with ⟨_ | _, _⟩ <;> rfl

theorem run_map_eq_ok_iff {f : α → β} {x : HoistM α} {b : β} {h h' : Hoister} :
    (f <$> x).run h = (.ok b, h') ↔ ∃ a, x.run h = (.ok a, h') ∧ f a = b := by
  rw [run_map]
  rcases x.run h with ⟨_ | a, h₁⟩
  · simp [Except.map]
  · simp only [Except.map, Prod.mk.injEq, Except.ok.injEq]
    constructor
    · rintro ⟨rfl, rfl⟩
      exact ⟨a, ⟨rfl, rfl⟩, rfl⟩
    · rintro ⟨_, ⟨rfl, rfl⟩, rfl⟩
      exact ⟨rfl, rfl⟩

theorem run_map_eq_error_iff {f : α → β} {x : HoistM α} {e : HoistError} {h h' : Hoister} :
    (f <$> x).run h = (.error e, h') ↔ x.run h = (.error e, h') := by
  rw [run_map]
  rcases x.run h with ⟨_ | a, h₁⟩ <;> simp [Except.map]

@[simp] theorem run_ofPosition_ok (a : α) (h : Hoister) :
    (ofPosition (.ok a)).run h = (.ok a, h) := rfl

@[simp] theorem run_ofPosition_error (e : PositionError) (h : Hoister) :
    (ofPosition (.error e) : HoistM α).run h = (.error (.position e), h) := rfl

end HoistM

namespace Hoister

theorem run_freshLine (h : Hoister) :
    freshLine.run h =
      match h.next.succ? with
      | none => (.error .suffixesExhausted, h)
      | some next =>
        (.ok (h.base.child h.next),
          { h with
            next
            minted := h.minted ++ [h.base.child h.next]
            events := h.events ++ [h.mintEvent (h.base.child h.next)] }) := by
  cases e : h.next.succ? with
  | none => simp [freshLine, HoistM.run_bind, e]
  | some next => simp [freshLine, HoistM.run_bind, HoistM.run_map, Except.map, mintEvent, e]

theorem run_lineFor (t : Tree) (h : Hoister) :
    (lineFor t).run h =
      match t.line with
      | .error e => (.error (.position e), h)
      | .ok line => if line ∈ h.minted then (.ok line, h) else freshLine.run h := by
  cases e : t.line with
  | error e => simp [lineFor, HoistM.run_bind, e]
  | ok line => by_cases m : line ∈ h.minted <;> simp [lineFor, HoistM.run_bind, e, m]

theorem run_makePath_line (name : Option String) (line : Line) (h : Hoister) :
    (makePath name (some line)).run h = (.ok (pathOn line (name.getD (targetName line))), h) := by
  simp [makePath]

theorem run_makePath_fresh (name : Option String) (h : Hoister) :
    (makePath name none).run h =
      ((freshLine.run h).1.map fun line => pathOn line (name.getD (targetName line)),
        (freshLine.run h).2) := by
  simp [makePath, HoistM.run_map]

theorem run_makeAssignment (value : Tree) (h : Hoister) :
    (makeAssignment value).run h =
      match (lineFor value).run h with
      | (.error e, h) => (.error e, h)
      | (.ok line, h) =>
        match value.mapFirstToken fun token => { token with line } with
        | .error e => (.error (.position e), h)
        | .ok value => (.ok (assignmentOn line value), h) := by
  rw [makeAssignment, HoistM.run_bind]
  rcases (lineFor value).run h with ⟨_ | line, h⟩
  · rfl
  · cases e : value.mapFirstToken fun token => { token with line } <;>
      simp [HoistM.run_map, Except.map, e]

theorem run_inject (value : Tree) (h : Hoister) :
    (inject value).run h =
      match (makeAssignment value).run h with
      | (.error e, h) => (.error e, h)
      | (.ok assignment, h) => (.ok assignment, h.insert assignment) := by
  rw [inject, HoistM.run_bind]
  rcases (makeAssignment value).run h with ⟨_ | _, h⟩ <;> rfl

end Hoister

end ScriptFrontend
