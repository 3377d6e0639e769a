import ScriptFrontend.Proofs.Hoist.Block
import ScriptFrontend.Proofs.Tree.Places

/-!
# Targets and references

The target of an assignment is a path, and several tokens and fragments of it can spell one name
together. Within a path a reference is a fragment, which is read behind a dot, and no dot stands in
front of the letter that the name of a derived line begins with. So a reference that is put
somewhere into an assignment makes the name of a derived line its target in one way only: it is put
in as a direct child, and is the target itself. Any other target with such a name was spelled by the
assignment before, and not by a path of tokens alone when something in it was exchanged.
-/

namespace ScriptFrontend

namespace Hoister

/-- The name of a derived line does not stand behind a dot in the name of another. -/
theorem dotted_targetName_ne (before after : String) (l m : Line) :
    before ++ ("." ++ targetName m ++ after) ≠ targetName l := by
  intro same
  have letters := congrArg String.toList same
  simp only [targetName, String.toList_append] at letters
  have absent : 'p' ∉ l.dotted.toList := Line.notMem_dotted (by decide) (by decide) l
  cases front : before.toList with
  | nil =>
    rw [front] at letters
    exact absurd (List.cons.inj letters).1 (by decide)
  | cons c cs =>
    rw [front] at letters
    have behind : 'p' ∈ "-".toList ++ l.dotted.toList := by
      have tail := (List.cons.inj letters).2
      rw [show "-".toList ++ l.dotted.toList = _ from tail.symm]
      simp
    simp [absent] at behind

end Hoister

namespace Tree

/-! ### Names that paths spell -/

theorem pathName_of_children {t : Tree} {before after : List Child} {c : Child}
    (children : t.children = before ++ c :: after) :
    t.pathName = String.join (before.map pathName.segment) ++
      (pathName.segment c ++ String.join (after.map pathName.segment)) := by
  rw [pathName, children, List.map_append, List.map_cons, String.join_append, String.join_cons]

theorem segment_of_leftmost {t : Tree} {token : Token}
    (first : Child.leftmostIn? t.children = some token) :
    pathName.segment (.ofTree t) = "." ++ token.value := by
  simp [Child.ofTree, pathName.segment, first]

theorem segment_congr {s t : Tree}
    (same : Child.leftmostIn? t.children = Child.leftmostIn? s.children) :
    pathName.segment (.ofTree t) = pathName.segment (.ofTree s) := by
  simp [Child.ofTree, pathName.segment, same]

/-- A path that begins one of its fragments with a reference spells no name of a derived line. -/
theorem pathName_ne_of_reference {t s : Tree} {before after : List Child} {line l : Line}
    (children : t.children = before ++ .ofTree s :: after)
    (first : Child.leftmostIn? s.children =
      some (.synthetic "NAME" (Hoister.targetName line) line)) :
    t.pathName ≠ Hoister.targetName l := by
  rw [pathName_of_children children, segment_of_leftmost first]
  exact Hoister.dotted_targetName_ne _ _ l line

/-! ### Subtrees -/

theorem subtree?_append {t : Tree} {before after : List Child}
    (children : t.children = before ++ after) (tag : String) :
    t.subtree? tag =
      ((⟨t.tag, before⟩ : Tree).subtree? tag).or ((⟨t.tag, after⟩ : Tree).subtree? tag) := by
  simp [subtree?, subtrees, children]

theorem subtree?_cons (outer : String) (s : Tree) (after : List Child) (tag : String) :
    (⟨outer, .ofTree s :: after⟩ : Tree).subtree? tag =
      if s.tag = tag then some s else (⟨outer, after⟩ : Tree).subtree? tag := by
  by_cases same : s.tag = tag <;> simp [subtree?, subtrees, same]

/-! ### References put into an assignment -/

theorem exists_set_of_getElem? {cs : List Child} {index : Nat} {old : Child}
    (present : cs[index]? = some old) (new : Child) :
    ∃ before after, cs = before ++ old :: after ∧ cs.set index new = before ++ new :: after := by
  obtain ⟨within, rfl⟩ := List.getElem?_eq_some_iff.1 present
  obtain ⟨before, after, same, -, changed⟩ := List.exists_of_set within
  exact ⟨before, after, same, changed⟩

namespace Replaced

theorem exchanges {old new : Child} {place : Place} {t t' : Tree}
    (r : Replaced old new place t t') : Child.Exchanges old new t.children t'.children := by
  induction r with
  | root present => exact Child.exchanges_set present
  | under present _ ih => exact (Child.exchanges_set present).trans ih

variable {old : Child} {place : Place} {line l : Line} {t t' : Tree}

/-- A path with a new reference in it that spells the name of a derived line did so before, and not
by tokens alone. -/
theorem pathName_of_reference
    (r : Replaced old (.ofTree (Hoister.pathOn line (Hoister.targetName line))) place t t')
    (spelled : t'.pathName = Hoister.targetName l) :
    t.pathName = Hoister.targetName l ∧ ∃ s, .ofTree s ∈ t.children := by
  cases r with
  | root present =>
    obtain ⟨before, after, -, children⟩ := exists_set_of_getElem? present
      (.ofTree (Hoister.pathOn line (Hoister.targetName line)))
    exact absurd spelled (pathName_ne_of_reference children rfl)
  | @under k index path t s s' present inner =>
    obtain ⟨before, after, was, is⟩ := exists_set_of_getElem? present (.ofTree s')
    refine ⟨?_, s, List.mem_of_getElem? present⟩
    rcases inner.exchanges with kept | ⟨-, first⟩
    · rw [← spelled, pathName_of_children was, pathName_of_children is, segment_congr kept]
    · exact absurd spelled (pathName_ne_of_reference is first)

/-- An assignment with a new reference in it that assigns to the name of a derived line. The
reference is its target, or the target is the one from before: either nothing in it was exchanged,
or it has a fragment and spells the name still. -/
theorem target_of_reference
    (r : Replaced old (.ofTree (Hoister.pathOn line (Hoister.targetName line))) place t t')
    (named : Hoister.target? t' = some (Hoister.targetName l)) :
    place.path = [] ∧
        Hoister.referenceTo? t' = some (Hoister.pathOn line (Hoister.targetName line)) ∨
      Hoister.referenceTo? t' = Hoister.referenceTo? t ∨
      Hoister.target? t = some (Hoister.targetName l) ∧
        ∃ path s, Hoister.referenceTo? t = some path ∧ .ofTree s ∈ path.children := by
  unfold Hoister.target? Hoister.referenceTo? at *
  cases r with
  | root present =>
    obtain ⟨before, after, was, is⟩ := exists_set_of_getElem? present
      (.ofTree (Hoister.pathOn line (Hoister.targetName line)))
    rw [subtree?_append was, subtree?_append is, subtree?_cons]
    cases (⟨_, before⟩ : Tree).subtree? "path" with
    | none => exact .inl ⟨rfl, rfl⟩
    | some path => exact .inr (.inl rfl)
  | @under k index path t s s' present inner =>
    obtain ⟨before, after, was, is⟩ := exists_set_of_getElem? present (.ofTree s')
    rw [subtree?_append is, subtree?_cons, inner.tag_eq] at named ⊢
    rw [subtree?_append was, subtree?_cons]
    cases front : (⟨t.tag, before⟩ : Tree).subtree? "path" with
    | some path => exact .inr (.inl rfl)
    | none =>
      by_cases target : s.tag = "path"
      · rw [front, if_pos target, Option.none_or, Option.map_some, Option.some.injEq] at named
        obtain ⟨spelled, fragment, child⟩ := inner.pathName_of_reference named
        refine .inr (.inr ⟨?_, s, fragment, if_pos target, child⟩)
        rw [Option.none_or, if_pos target, Option.map_some, spelled]
      · rw [if_neg target, if_neg target]
        exact .inr (.inl rfl)

end Replaced

end Tree

end ScriptFrontend
