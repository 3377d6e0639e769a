import ScriptFrontend.Proofs.Hoist.Derived
import ScriptFrontend.Proofs.Hoist.Target
import ScriptFrontend.Proofs.Tree.Values

/-!
# Definition before use

Values are hoisted out of the last child of a block one after another, each by a hoister of its own.
A hoisted value may hold references to assignments that were hoisted before it, so references end up
in the assignments too. Each of them names an assignment that a hoist made, further ahead, and only
that one of all that hoists made: the name is made from the line, and a new line comes behind those
of all assignments of the block on lines with its parent, which is the same from the first hoist on.

Two more assignments to the name cannot be excluded. The block may have had one from the start, with
a target that spells the name in several tokens. And where the last child is an assignment itself,
its target can be what is hoisted; then the reference is its target.
-/

namespace ScriptFrontend

/-- A name of the form that the targets of hoisted values have. -/
def IsDerivedName (name : String) : Prop := "p-".toList <+: name.toList

instance (name : String) : Decidable (IsDerivedName name) :=
  inferInstanceAs (Decidable (_ <+: _))

/-- The tree is an assignment, and its target spells this name. -/
def Tree.Assigns (t : Tree) (name : String) : Prop :=
  t.tag = "assignment" ∧ Hoister.target? t = some name

instance (t : Tree) (name : String) : Decidable (t.Assigns name) :=
  inferInstanceAs (Decidable (_ ∧ _))

namespace Child

/-- The values in a child that it does not assign to. -/
def used : Child → List String
  | .token t => [t.value]
  | .tree tag cs => if tag = "assignment" then valuesIn (cs.eraseP isPath) else valuesIn cs
where
  isPath : Child → Bool
    | .token _ => false
    | .tree tag _ => tag == "path"

def AssignedAt (cs : List Child) (index : Nat) (name : String) : Prop :=
  ∃ a, cs[index]? = some (.ofTree a) ∧ a.Assigns name

/-- A child holds a reference. In the last child every derived name is one, in front of it every
derived name that is not assigned to. -/
def ReferredAt (cs : List Child) (index : Nat) (name : String) : Prop :=
  IsDerivedName name ∧ ∃ c, cs[index]? = some c ∧
    name ∈ if index + 1 = cs.length then c.values else c.used

end Child

private theorem getElem?_append_eq_some_iff {α : Type} {xs ys : List α} {y : α} {i : Nat} :
    (xs ++ ys)[i]? = some y ↔ xs[i]? = some y ∨ ∃ k, i = xs.length + k ∧ ys[k]? = some y := by
  rcases Nat.lt_or_ge i xs.length with before | behind
  · have apart (k : Nat) : i ≠ xs.length + k := by omega
    simp [List.getElem?_append_left before, apart]
  · obtain ⟨k, rfl⟩ := Nat.exists_eq_add_of_le behind
    simp [List.getElem?_append_right behind]

private theorem getElem?_concat_eq_some_iff {α : Type} {xs : List α} {x y : α} {i : Nat} :
    (xs ++ [x])[i]? = some y ↔ xs[i]? = some y ∨ i = xs.length ∧ x = y := by
  simp only [getElem?_append_eq_some_iff, List.getElem?_singleton, Option.ite_none_right_eq_some,
    Option.some.injEq]
  constructor
  · rintro (before | ⟨k, rfl, rfl, same⟩)
    · exact .inl before
    · exact .inr ⟨rfl, same⟩
  · rintro (before | ⟨rfl, same⟩)
    · exact .inl before
    · exact .inr ⟨0, rfl, rfl, same⟩

namespace Child

theorem mem_values_of_mem_used {c : Child} {name : String} (present : name ∈ c.used) :
    name ∈ c.values := by
  cases c with
  | token t => exact present
  | tree tag cs =>
    rw [used] at present
    split at present
    · obtain ⟨c, mem, within⟩ := mem_valuesIn_iff.1 present
      exact mem_valuesIn_iff.2 ⟨c, List.mem_of_mem_eraseP mem, within⟩
    · exact present

theorem ReferredAt.mem_values {cs : List Child} {i : Nat} {name : String}
    (refers : ReferredAt cs i name) : name ∈ valuesIn cs := by
  obtain ⟨-, c, present, use⟩ := refers
  refine mem_valuesIn_iff.2 ⟨c, List.mem_of_getElem? present, ?_⟩
  split at use
  · exact use
  · exact mem_values_of_mem_used use

theorem assignedAt_append_iff {cs ds : List Child} {j : Nat} {name : String} :
    AssignedAt (cs ++ ds) j name ↔
      AssignedAt cs j name ∨ ∃ k, j = cs.length + k ∧ AssignedAt ds k name := by
  simp only [AssignedAt, getElem?_append_eq_some_iff]
  grind

theorem AssignedAt.lt {cs : List Child} {j : Nat} {name : String} (assigned : AssignedAt cs j name) :
    j < cs.length := by
  obtain ⟨a, present, -⟩ := assigned
  exact (List.getElem?_eq_some_iff.1 present).1

end Child

theorem Hoister.assigns_assignmentOn_iff {line : Line} {value : Tree} {name : String} :
    (assignmentOn line value).Assigns name ↔ name = targetName line := by
  rw [Tree.Assigns, target?_assignmentOn, Option.some.injEq, eq_comm (b := name)]
  exact and_iff_right rfl

theorem Hoister.used_assignmentOn (line : Line) (value : Tree) :
    (Child.ofTree (assignmentOn line value)).used = "=" :: Child.valuesIn value.children := by
  simp [assignmentOn, pathOn, Child.ofTree, Child.used, Child.used.isPath, Child.valuesIn, Child.values,
    Token.synthetic]

/-! ### Hoists out of the last child -/

/-- Something to be hoisted: its place within the last child of a block, and what stands there until
the reference does. -/
structure Removal where
  place : Place
  placeholder : Child

namespace Tree

/-- The block after one hoist, if all of its steps succeed. -/
def hoistLast? (block : Tree) (r : Removal) : Option Tree :=
  match block.hoist? (.positions (Hoister.insertionIndex block :: r.place.path)) r.place.index
      r.placeholder (.positions ((Hoister.insertionIndex block + 1) :: r.place.path)) with
  | some ⟨.ok ⟨_, true⟩, block, _⟩ => some block
  | _ => none

def hoistAll? (block : Tree) : List Removal → Option Tree
  | [] => some block
  | r :: rs => (block.hoistLast? r).bind (·.hoistAll? rs)

theorem of_install {block block' a a' : Tree} {path : List Nat} {index : Nat}
    (installed : block.install (.positions path) index a = (.ok ⟨a', true⟩, block')) :
    a' = a ∧ ∃ reference old, Hoister.referenceTo? a = some reference ∧
      Replaced old (.ofTree reference) ⟨path, index⟩ block block' := by
  unfold install at installed
  split at installed
  · cases installed
  · rename_i reference target
    split at installed
    · cases installed
    · cases installed
    · rename_i old block₁ replaced
      cases installed
      exact ⟨rfl, reference, old, target, replaceAt?_eq_ok_iff.1 replaced⟩

/-- The four steps of a hoist that succeeds. -/
theorem of_hoist? {block block' a : Tree} {path path' : List Nat} {index : Nat} {placeholder : Child}
    {events : List Event} (hoisted : block.hoist? (.positions path) index placeholder
      (.positions path') = some ⟨.ok ⟨a, true⟩, block', events⟩) :
    ∃ displaced detached h h' reference old,
      Replaced displaced placeholder ⟨path, index⟩ block detached ∧
      Hoister.bind detached = .ok h ∧ (Hoister.inject displaced.toValue).run h = (.ok a, h') ∧
      Hoister.referenceTo? a = some reference ∧
      Replaced old (.ofTree reference) ⟨path', index⟩ h'.block block' := by
  unfold hoist? at hoisted
  split at hoisted
  · cases hoisted
  · cases hoisted
  · rename_i displaced detached taken
    split at hoisted
    · cases hoisted
    · rename_i h bound
      split at hoisted
      · cases hoisted
      · rename_i a₁ h' run
        obtain ⟨result, same⟩ := HoistRun.mk.inj (Option.some.inj hoisted)
        obtain ⟨rfl, reference, old, target, installed⟩ := of_install (Prod.ext result same.1)
        exact ⟨displaced, detached, h, h', reference, old, replaceAt?_eq_ok_iff.1 taken, bound, run,
          target, installed⟩

theorem of_hoistLast? {block block' : Tree} {r : Removal} (hoisted : block.hoistLast? r = some block') :
    ∃ a events, block.hoist? (.positions (Hoister.insertionIndex block :: r.place.path)) r.place.index
      r.placeholder (.positions ((Hoister.insertionIndex block + 1) :: r.place.path)) =
        some ⟨.ok ⟨a, true⟩, block', events⟩ := by
  unfold hoistLast? at hoisted
  split at hoisted
  · rename_i a block₁ events run
    cases hoisted
    exact ⟨a, events, run⟩
  · cases hoisted

end Tree

namespace Hoister

theorem leftmost_of_bind {h : Hoister} {c : Child} {cs : List Child} (bound : bind h.block = .ok h)
    (children : h.block.children = c :: cs) :
    ∃ first, c.leftmost? = some first ∧ first.line.parent = h.base := by
  obtain ⟨first, leftmost, origin⟩ := Tree.line_eq_ok_iff.1 (of_bind bound).2.1
  rw [children] at leftmost
  exact ⟨first, leftmost, by rw [origin, base]⟩

/-- What one hoist does to the block. The hoister is bound when the placeholder is in place, and the
placeholder is gone when the hoist is over. -/
theorem children_of_hoistLast? {block block' : Tree} {r : Removal}
    (hoisted : block.hoistLast? r = some block') :
    ∃ cs s s₁ s₂ h displaced moved, block.children = cs ++ [.ofTree s] ∧
      h.block.children = cs ++ [.ofTree s₁] ∧ bind h.block = .ok h ∧
      block'.children = (cs ++ [.ofTree (assignmentOn (h.base.child h.next) moved)]) ++ [.ofTree s₂] ∧
      Child.valuesIn moved.children = displaced.values ∧
      Tree.Replaced displaced
        (.ofTree (pathOn (h.base.child h.next) (targetName (h.base.child h.next)))) r.place s s₂ := by
  obtain ⟨a, events, run⟩ := Tree.of_hoistLast? hoisted
  obtain ⟨displaced, detached, h, h', reference, old, taken, bound, run, target, installed⟩ :=
    Tree.of_hoist? run
  obtain ⟨source, moved, -, relocated, rfl, -, after⟩ := inject_of_bind bound run
  rw [referenceTo?_assignmentOn] at target
  cases target
  obtain empty | ⟨cs, last, children⟩ := List.eq_nil_or_concat block.children
  · cases taken with
    | under present _ =>
      rw [empty] at present
      cases present
  rw [List.concat_eq_append] at children
  obtain ⟨rfl, -, -, -⟩ := of_bind bound
  rw [insertionIndex_eq_length children] at taken installed
  obtain ⟨s, s₁, rfl, took, detached⟩ := taken.of_last children
  have grown : h'.block.children =
      (cs ++ [.ofTree (assignmentOn (h.base.child h.next) moved)]) ++ [.ofTree s₁] := by
    rw [after, children_insert detached, List.append_assoc]
    rfl
  rw [show cs.length + 1 = (cs ++ [Child.ofTree
    (assignmentOn (h.base.child h.next) moved)]).length by simp] at installed
  obtain ⟨s₁', s₂, same, put, referring⟩ := installed.of_last grown
  obtain rfl := Child.ofTree_injective same
  refine ⟨cs, s, s₁, s₂, h, displaced, moved, children, detached, bound, referring, ?_,
    took.trans put⟩
  rw [Tree.valuesIn_of_relocated relocated, Child.valuesIn_toValue]

end Hoister

/-! ### Definitions in front of uses -/

/-- A hoist that came about: what was hoisted from where, the line that was derived for it, and the
value as it was assigned. -/
structure Hoisted where
  removal : Removal
  line : Line
  value : Tree

def Hoisted.assignment (m : Hoisted) : Child := .ofTree (Hoister.assignmentOn m.line m.value)

/-- A block after some hoists: `kept` is what stood in front of its last child at the start, behind
that come the assignments that the hoists made, and `last` is what has become of the last child
`start`. All derived names in there are accounted for. `placed` is what keeps them apart in further
hoists: their lines have the parent that the line of the block has. -/
structure Resolved (kept : List Child) (start : Tree) (made : List Hoisted) (last : Tree) :
    Prop where
  defined : ∀ (q : Nat) (m : Hoisted), made[q]? = some m →
    ∀ name ∈ Child.valuesIn m.value.children, IsDerivedName name →
      ∃ p < q, ∃ m' : Hoisted, made[p]? = some m' ∧ name = Hoister.targetName m'.line
  carried : ∀ name ∈ Child.valuesIn last.children, IsDerivedName name →
    ∃ m ∈ made, name = Hoister.targetName m.line
  ascending : made.Pairwise fun m m' => m.line < m'.line
  placed : ∀ m ∈ made, m.line.isSynthetic ∧ ∃ first,
    Child.leftmostIn? (kept ++ made.map Hoisted.assignment) = some first ∧
      first.line.parent = m.line.parent
  tag_eq : last.tag = start.tag
  target : ∀ l, Hoister.target? last = some (Hoister.targetName l) →
    Hoister.target? start = some (Hoister.targetName l) ∨ ∃ m ∈ made, m.removal.place.path = [] ∧
      Hoister.referenceTo? last = some (Hoister.pathOn m.line (Hoister.targetName m.line))

namespace Resolved

variable {kept : List Child} {start last s : Tree} {made : List Hoisted}

theorem of_plain (plain : ∀ name ∈ Child.valuesIn start.children, ¬ IsDerivedName name) :
    Resolved kept start [] start where
  defined _ _ present := by cases present
  carried name value derived := absurd derived (plain name value)
  ascending := .nil
  placed _ mem := by cases mem
  tag_eq := rfl
  target _ named := .inl named

/-- A hoister that is bound to the block derives lines with the parent that the lines of the earlier
hoists have, and behind those. -/
theorem lt_fresh {h : Hoister} {m : Hoisted} (r : Resolved kept start made last)
    (bound : Hoister.bind h.block = .ok h)
    (children : h.block.children = kept ++ made.map Hoisted.assignment ++ [.ofTree s])
    (mem : m ∈ made) : m.line < h.base.child h.next := by
  obtain ⟨synthetic, first, leftmost, parent⟩ := r.placed m mem
  have child : m.assignment ∈ kept ++ made.map Hoisted.assignment :=
    List.mem_append_right _ (List.mem_map_of_mem mem)
  have base : first.line.parent = h.base := by
    cases front : kept ++ made.map Hoisted.assignment with
    | nil =>
      rw [front] at child
      cases child
    | cons c cs =>
      rw [front] at leftmost children
      obtain ⟨first', leftmost', base⟩ := Hoister.leftmost_of_bind bound children
      cases leftmost.symm.trans leftmost'
      exact base
  have tagged : Hoister.assignmentOn m.line m.value ∈ h.block.tagged "assignment" := by
    refine Tree.mem_tagged_iff.2 ⟨?_, rfl⟩
    rw [children]
    exact List.mem_append_left _ child
  exact (Hoister.Continues.of_bind bound).assignment_lt_fresh tagged
    (Hoister.line_assignmentOn m.line m.value) synthetic (parent.symm.trans base)

theorem concat {h : Hoister} {displaced : Child} {removal : Removal} {s₁ s₂ moved : Tree}
    (r : Resolved kept start made s) (bound : Hoister.bind h.block = .ok h)
    (children : h.block.children = kept ++ made.map Hoisted.assignment ++ [.ofTree s₁])
    (values : Child.valuesIn moved.children = displaced.values)
    (replaced : Tree.Replaced displaced
      (.ofTree (Hoister.pathOn (h.base.child h.next) (Hoister.targetName (h.base.child h.next))))
      removal.place s s₂) :
    Resolved kept start (made ++ [⟨removal, h.base.child h.next, moved⟩]) s₂ := by
  constructor
  · intro q m present name value derived
    rcases getElem?_concat_eq_some_iff.1 present with before | ⟨rfl, rfl⟩
    · obtain ⟨p, lt, m', present', named⟩ := r.defined q m before name value derived
      exact ⟨p, lt, m', getElem?_concat_eq_some_iff.2 (.inl present'), named⟩
    · have before := replaced.mem_values_of_mem_old (values ▸ value)
      obtain ⟨m', mem, named⟩ := r.carried name before derived
      obtain ⟨p, present'⟩ := List.mem_iff_getElem?.1 mem
      exact ⟨p, (List.getElem?_eq_some_iff.1 present').1, m',
        getElem?_concat_eq_some_iff.2 (.inl present'), named⟩
  · intro name value derived
    rcases replaced.mem_values_or_new value with before | now
    · obtain ⟨m, mem, named⟩ := r.carried name before derived
      exact ⟨m, List.mem_append_left _ mem, named⟩
    · exact ⟨_, List.mem_concat_self, List.mem_singleton.1 now⟩
  · refine List.pairwise_append.2 ⟨r.ascending, List.pairwise_singleton _ _, ?_⟩
    intro m mem m' fresh
    rw [List.mem_singleton.1 fresh]
    exact r.lt_fresh bound children mem
  · intro m mem
    rw [List.map_append, ← List.append_assoc]
    cases front : kept ++ made.map Hoisted.assignment with
    | nil =>
      -- In front of an only child the assignment begins the block from now on.
      obtain ⟨-, rfl⟩ : kept = [] ∧ made = [] := by simpa using front
      obtain rfl := List.mem_singleton.1 mem
      exact ⟨Line.isSynthetic_child _ _, _, rfl, rfl⟩
    | cons c cs =>
      rw [front] at children
      obtain ⟨first, leftmost, base⟩ := Hoister.leftmost_of_bind bound children
      rcases List.mem_append.1 mem with before | now
      · obtain ⟨synthetic, first', leftmost', parent⟩ := r.placed m before
        rw [front] at leftmost'
        exact ⟨synthetic, first', leftmost', parent⟩
      · obtain rfl := List.mem_singleton.1 now
        exact ⟨Line.isSynthetic_child _ _, first, leftmost, by rw [base, Line.parent_child]⟩
  · exact replaced.tag_eq.trans r.tag_eq
  · intro l named
    rcases replaced.target_of_reference named with
      ⟨direct, now⟩ | same | ⟨before, path, inner, was, child⟩
    · exact .inr ⟨_, List.mem_concat_self, direct, now⟩
    · rw [Hoister.target?, same] at named
      rcases r.target l named with first | ⟨m, mem, direct, was⟩
      · exact .inl first
      · exact .inr ⟨m, List.mem_append_left _ mem, direct, same.trans was⟩
    · rcases r.target l before with first | ⟨m, mem, direct, was'⟩
      · exact .inl first
      · -- A reference has no fragment that something could have been exchanged in.
        cases was.symm.trans was'
        cases List.mem_singleton.1 child

theorem of_hoistAll? {removals : List Removal} {block block' : Tree}
    (children : block.children = kept ++ made.map Hoisted.assignment ++ [.ofTree s])
    (r : Resolved kept start made s) (hoisted : block.hoistAll? removals = some block') :
    ∃ made' s', block'.children = kept ++ made'.map Hoisted.assignment ++ [.ofTree s'] ∧
      Resolved kept start made' s' ∧
      made'.map Hoisted.removal = made.map Hoisted.removal ++ removals := by
  induction removals generalizing block s made with
  | nil =>
    cases hoisted
    exact ⟨made, s, children, r, (List.append_nil _).symm⟩
  | cons removal removals ih =>
    obtain ⟨next, first, rest⟩ := Option.bind_eq_some_iff.1 hoisted
    obtain ⟨cs, s₀, s₁, s₂, h, displaced, moved, same, detached, bound, grown, values, replaced⟩ :=
      Hoister.children_of_hoistLast? first
    obtain ⟨rfl, last⟩ := List.append_inj' (children.symm.trans same) rfl
    obtain rfl := Child.ofTree_injective (List.singleton_inj.1 last)
    obtain ⟨made', s', children', r', all⟩ :=
      ih (by rw [grown]; simp [Hoisted.assignment]) (r.concat bound detached values replaced) rest
    exact ⟨made', s', children', r', by simpa using all⟩

/-! ### What a name stands for -/

theorem exists_made {i : Nat} {name : String} (r : Resolved kept start made last)
    (plain : ∀ name ∈ Child.valuesIn kept, ¬ IsDerivedName name)
    (refers : Child.ReferredAt (kept ++ made.map Hoisted.assignment ++ [.ofTree last]) i name) :
    ∃ p m, made[p]? = some m ∧ name = Hoister.targetName m.line ∧ kept.length + p < i := by
  obtain ⟨derived, c, present, use⟩ := refers
  rcases getElem?_concat_eq_some_iff.1 present with before | ⟨rfl, rfl⟩
  · have within := (List.getElem?_eq_some_iff.1 before).1
    rw [if_neg (by simp at within ⊢; omega)] at use
    rcases getElem?_append_eq_some_iff.1 before with first | ⟨q, rfl, assigned⟩
    · have value : name ∈ Child.valuesIn kept :=
        Child.mem_valuesIn_iff.2 ⟨c, List.mem_of_getElem? first, Child.mem_values_of_mem_used use⟩
      exact absurd derived (plain name value)
    · rw [List.getElem?_map] at assigned
      obtain ⟨m, hoist, rfl⟩ := Option.map_eq_some_iff.1 assigned
      rw [Hoisted.assignment, Hoister.used_assignmentOn] at use
      rcases List.mem_cons.1 use with rfl | value
      · exact absurd derived (by decide)
      · obtain ⟨p, lt, m', present', named⟩ := r.defined q m hoist name value derived
        exact ⟨p, m', present', named, by omega⟩
  · rw [if_pos (by simp [Nat.add_assoc])] at use
    obtain ⟨m, mem, named⟩ := r.carried name use derived
    obtain ⟨p, present'⟩ := List.mem_iff_getElem?.1 mem
    have within := (List.getElem?_eq_some_iff.1 present').1
    exact ⟨p, m, present', named, by simp; omega⟩

theorem eq_of_line_eq {p q : Nat} {m m' : Hoisted} (r : Resolved kept start made last)
    (present : made[p]? = some m) (present' : made[q]? = some m') (same : m'.line = m.line) :
    q = p := by
  obtain ⟨within, rfl⟩ := List.getElem?_eq_some_iff.1 present
  obtain ⟨within', rfl⟩ := List.getElem?_eq_some_iff.1 present'
  have before := List.pairwise_iff_getElem.1 r.ascending
  rcases Nat.lt_trichotomy q p with lt | same' | lt
  · exact absurd same (Line.ne_of_lt (before q p within' within lt))
  · exact same'
  · exact absurd same.symm (Line.ne_of_lt (before p q within within' lt))

/-- Which children assign to the name of a hoist, besides the assignment that the hoist made. -/
theorem assigned_cases {k p : Nat} {m : Hoisted} (r : Resolved kept start made last)
    (present : made[p]? = some m)
    (assigned : Child.AssignedAt (kept ++ made.map Hoisted.assignment ++ [.ofTree last]) k
      (Hoister.targetName m.line)) :
    k = kept.length + p ∨ Child.AssignedAt kept k (Hoister.targetName m.line) ∨
      k = kept.length + made.length ∧ last.Assigns (Hoister.targetName m.line) := by
  rcases Child.assignedAt_append_iff.1 assigned with front | ⟨j, rfl, a, here, assigns⟩
  · rcases Child.assignedAt_append_iff.1 front with first | ⟨q, rfl, a, here, assigns⟩
    · exact .inr (.inl first)
    · rw [List.getElem?_map] at here
      obtain ⟨m', present', same⟩ := Option.map_eq_some_iff.1 here
      obtain rfl := Child.ofTree_injective same
      have named := Hoister.assigns_assignmentOn_iff.1 assigns
      rw [r.eq_of_line_eq present present' (Hoister.targetName_injective named).symm]
      exact .inl rfl
  · obtain ⟨rfl, same⟩ : j = 0 ∧ last = a := by
      rw [List.getElem?_singleton, Option.ite_none_right_eq_some, Option.some.injEq] at here
      exact ⟨here.1, Child.ofTree_injective here.2⟩
    exact .inr (.inr ⟨by simp, same ▸ assigns⟩)

/-- How the last child comes to assign to the name of a hoist. -/
theorem last_assigns {p : Nat} {m : Hoisted} (r : Resolved kept start made last)
    (present : made[p]? = some m) (assigns : last.Assigns (Hoister.targetName m.line)) :
    start.Assigns (Hoister.targetName m.line) ∨
      start.tag = "assignment" ∧ m.removal.place.path = [] ∧
        Hoister.referenceTo? last = some (Hoister.pathOn m.line (Hoister.targetName m.line)) := by
  obtain ⟨tag, target⟩ := assigns
  have tag := r.tag_eq.symm.trans tag
  rcases r.target m.line target with first | ⟨m', mem, direct, reference⟩
  · exact .inl ⟨tag, first⟩
  · rw [Hoister.target?, reference, Option.map_some, Hoister.pathName_pathOn, Option.some.injEq]
      at target
    obtain ⟨q, present'⟩ := List.mem_iff_getElem?.1 mem
    obtain rfl := r.eq_of_line_eq present present' (Hoister.targetName_injective target)
    cases present.symm.trans present'
    exact .inr ⟨tag, direct, reference⟩

end Resolved

namespace Hoister

/-- Values are hoisted one after another from anywhere within the last child of a block. Then every
derived name that the block refers to, be it in the last child or in a value that was hoisted with
it, is the target of the assignment that one of the hoists made, in front of the child with the
reference. Any other assignment to the name had the name as its target from the start; or it is the
last child, which was an assignment from the start, and that very hoist took a direct child of it,
so that the reference is its target. -/
theorem references_resolve {block block' : Tree} {removals : List Removal} {i : Nat} {name : String}
    (plain : ∀ name ∈ Child.valuesIn block.children, ¬ IsDerivedName name)
    (hoisted : block.hoistAll? removals = some block')
    (refers : Child.ReferredAt block'.children i name) :
    ∃ kept start last p removal line,
      block.children = kept ++ [.ofTree start] ∧ block'.children.getLast? = some (.ofTree last) ∧
      removals[p]? = some removal ∧ name = targetName line ∧ kept.length + p < i ∧
      Child.AssignedAt block'.children (kept.length + p) name ∧
      ∀ k, Child.AssignedAt block'.children k name → k = kept.length + p ∨
        k < kept.length ∧ Child.AssignedAt block.children k name ∨
        k + 1 = block'.children.length ∧ (start.Assigns name ∨
          start.tag = "assignment" ∧ removal.place.path = [] ∧
            referenceTo? last = some (pathOn line name)) := by
  -- Without a hoist nothing is referred to, and from the first one on the last child is a tree.
  cases removals with
  | nil =>
    cases hoisted
    exact absurd refers.1 (plain name refers.mem_values)
  | cons removal removals =>
    obtain ⟨next, first, -⟩ := Option.bind_eq_some_iff.1 hoisted
    obtain ⟨kept, start, -, -, -, -, -, children, -⟩ := children_of_hoistLast? first
    rw [children] at plain
    have plainStart : ∀ name ∈ Child.valuesIn start.children, ¬ IsDerivedName name :=
      fun name value => plain name (Child.mem_valuesIn_iff.2 ⟨_, List.mem_concat_self, value⟩)
    have plainKept : ∀ name ∈ Child.valuesIn kept, ¬ IsDerivedName name := fun name value => by
      obtain ⟨c, mem, within⟩ := Child.mem_valuesIn_iff.1 value
      exact plain name (Child.mem_valuesIn_iff.2 ⟨c, List.mem_append_left _ mem, within⟩)
    have none : block.children = kept ++ [].map Hoisted.assignment ++ [.ofTree start] := by
      rw [children, List.map_nil, List.append_nil]
    obtain ⟨made, last, children', r, all⟩ :=
      Resolved.of_hoistAll? none (.of_plain plainStart) hoisted
    rw [children'] at refers
    obtain ⟨p, m, present, rfl, ahead⟩ := r.exists_made plainKept refers
    refine ⟨kept, start, last, p, m.removal, m.line, children, by simp [children'], ?_, rfl, ahead,
      ?_, fun k assigned => ?_⟩
    · rw [← show made.map Hoisted.removal = removal :: removals from all, List.getElem?_map, present]
      rfl
    · rw [children', Child.assignedAt_append_iff, Child.assignedAt_append_iff]
      exact .inl (.inr ⟨p, rfl, _, by rw [List.getElem?_map, present]; rfl,
        assigns_assignmentOn_iff.2 rfl⟩)
    · rw [children'] at assigned
      rcases r.assigned_cases present assigned with same | early | ⟨rfl, assigns⟩
      · exact .inl same
      · rw [children]
        exact .inr (.inl ⟨early.lt, Child.assignedAt_append_iff.2 (.inl early)⟩)
      · exact .inr (.inr ⟨by simp [children', Nat.add_assoc], r.last_assigns present assigns⟩)

/-- The block of a statement `say f(…)` with assignments in front of it. -/
def callBlock (assignments : List Child) (argument : Tree) : Tree :=
  ⟨"block", assignments ++ [.tree "line" [.token ⟨"NAME", "say", .real 12, some 1, some 4⟩,
    .tree "entity" [.token ⟨"NAME", "f", .real 12, some 5, some 6⟩,
      .tree "arguments" [.ofTree argument]]]]⟩

def argumentOn (line : Line) : Tree := ⟨"entity", [.token ⟨"NAME", "g", line, some 7, some 8⟩]⟩

/-- First the argument `g` is hoisted out of `f(g)`, then the call, with the reference to `g` in it. -/
theorem references_resolve_nested :
    ∃ block', (callBlock [] (argumentOn (.real 12))).hoistAll?
        [⟨⟨[1, 1], 0⟩, .ofTree (pathOn (.real 12) "_")⟩,
          ⟨⟨[], 1⟩, .ofTree (pathOn (.real 12) "_")⟩] = some block' ∧
      Child.ReferredAt block'.children 1 "p-12.1" ∧ Child.AssignedAt block'.children 0 "p-12.1" ∧
      ∀ k, Child.AssignedAt block'.children k "p-12.1" → k = 0 := by
  have inner (line : Line) (derived : line = ⟨.clamp 12, [.clamp 1]⟩) :
      (callBlock [] (argumentOn (.real 12))).hoistLast?
          ⟨⟨[1, 1], 0⟩, .ofTree (pathOn (.real 12) "_")⟩ =
        some (callBlock [.ofTree (assignmentOn line (argumentOn line))] (pathOn line "p-12.1")) := by
    subst derived
    rfl
  obtain ⟨block', outer, refers⟩ : ∃ block',
      (callBlock [.ofTree (assignmentOn ⟨.clamp 12, [.clamp 1]⟩ (argumentOn ⟨.clamp 12, [.clamp 1]⟩))]
        (pathOn ⟨.clamp 12, [.clamp 1]⟩ "p-12.1")).hoistLast?
          ⟨⟨[], 1⟩, .ofTree (pathOn (.real 12) "_")⟩ = some block' ∧
      Child.ReferredAt block'.children 1 "p-12.1" :=
    ⟨_, rfl, by decide, _, rfl, by decide⟩
  have hoisted : (callBlock [] (argumentOn (.real 12))).hoistAll?
      [⟨⟨[1, 1], 0⟩, .ofTree (pathOn (.real 12) "_")⟩,
        ⟨⟨[], 1⟩, .ofTree (pathOn (.real 12) "_")⟩] = some block' := by
    rw [Tree.hoistAll?, inner _ rfl, Option.bind_some, Tree.hoistAll?, outer]
    rfl
  obtain ⟨kept, start, last, p, removal, line, children, -, -, -, ahead, assigned, only⟩ :=
    references_resolve (by decide) hoisted refers
  obtain ⟨rfl, same⟩ := List.append_inj' (show [] ++ [_] = kept ++ [.ofTree start] from children) rfl
  obtain rfl : p = 0 := by simpa using ahead
  refine ⟨block', hoisted, refers, assigned, fun k other => ?_⟩
  have statement : start.tag ≠ "assignment" := by
    rw [← (Child.tree.inj (List.singleton_inj.1 same)).1]
    decide
  rcases only k other with same | ⟨before, -⟩ | ⟨-, assigns | ⟨tag, -⟩⟩
  · exact same
  · exact absurd before (Nat.not_lt_zero k)
  · exact absurd assigns.1 statement
  · exact absurd tag statement

/-- An assignment of `f` on line 3 to a target of these tokens. -/
def assignmentTo (target : List String) : Child :=
  .tree "assignment" [
    .tree "path" (target.map fun name => .token ⟨"NAME", name, .real 3, some 1, some 2⟩),
    .tree "assignment_fragment" [.token ⟨"EQUALS", "=", .real 3, some 3, some 4⟩,
      .tree "entity" [.token ⟨"NAME", "f", .real 3, some 5, some 6⟩]]]

/-- A reference need not tell which assignment is meant. The target `a` can be hoisted as if it were a
value; then the statement assigns to the target of the new assignment. And an assignment from the
start can have a target that spells the name of the first line to be derived. -/
theorem reference_ambiguous :
    (∃ block', Tree.hoistAll? ⟨"block", [assignmentTo ["a"]]⟩
        [⟨⟨[], 0⟩, .ofTree (pathOn (.real 3) "_")⟩] = some block' ∧
      (∀ name ∈ Child.valuesIn [assignmentTo ["a"]], ¬ IsDerivedName name) ∧
      block'.children.length = 2 ∧ Child.ReferredAt block'.children 1 "p-3.1" ∧
      Child.AssignedAt block'.children 0 "p-3.1" ∧ Child.AssignedAt block'.children 1 "p-3.1") ∧
    ∃ block', (callBlock [assignmentTo ["p", "-3.1"]] (argumentOn (.real 12))).hoistAll?
        [⟨⟨[], 1⟩, .ofTree (pathOn (.real 12) "_")⟩] = some block' ∧
      (∀ name ∈ Child.valuesIn
        (callBlock [assignmentTo ["p", "-3.1"]] (argumentOn (.real 12))).children,
        ¬ IsDerivedName name) ∧
      block'.children.length = 3 ∧ Child.ReferredAt block'.children 2 "p-3.1" ∧
      Child.AssignedAt block'.children 0 "p-3.1" ∧ Child.AssignedAt block'.children 1 "p-3.1" := by
  constructor
  · refine ⟨_, rfl, by decide, rfl, ⟨by decide, _, rfl, by decide⟩, ⟨_, rfl, ?_⟩, _, rfl, ?_⟩ <;>
    decide
  · refine ⟨_, rfl, by decide, rfl, ⟨by decide, _, rfl, by decide⟩, ⟨⟨"assignment", _⟩, rfl, ?_⟩, _,
      rfl, ?_⟩ <;>
    decide

end Hoister

end ScriptFrontend
