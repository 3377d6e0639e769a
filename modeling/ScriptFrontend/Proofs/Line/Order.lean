import ScriptFrontend.Line.Basic

/-!
# The order of lines

Facts about lines that are read off their numbers. Siblings are ordered by their suffixes; a line
comes before all that is derived from it, and all of that comes before the next line of the source.
More than that holds: the lines from a line up to its next sibling are those whose components begin
with the components of the line, so the lines below two lines either nest or stand apart.
-/

namespace ScriptFrontend

namespace Line

theorem numbers_injective {a b : Line} (h : a.numbers = b.numbers) : a = b :=
  parts_injective ((List.map_inj_right fun _ _ => Component.ext_val).1 h)

theorem lt_irrefl (a : Line) : ¬ a < a := List.lt_irrefl a.numbers

theorem lt_trans {a b c : Line} (hab : a < b) (hbc : b < c) : a < c :=
  lt_def.2 (List.lt_trans (lt_def.1 hab) (lt_def.1 hbc))

theorem ne_of_lt {a b : Line} (h : a < b) : a ≠ b := by
  rintro rfl
  exact lt_irrefl a h

theorem numbers_foldl_child (l : Line) (ns : List Component) :
    (ns.foldl child l).numbers = l.numbers ++ ns.map (·.val) := by
  induction ns generalizing l with
  | nil => simp
  | cons n ns ih => rw [List.foldl_cons, ih, numbers_child, List.map_cons, List.append_assoc]; rfl

theorem lt_foldl_child (l : Line) (n : Component) (ns : List Component) :
    l < (n :: ns).foldl child l := by
  have longer : l.numbers ++ [] < l.numbers ++ (n :: ns).map (·.val) :=
    List.append_left_lt (List.nil_lt_cons ..)
  rw [lt_def, numbers_foldl_child]
  rwa [List.append_nil] at longer

theorem lt_child (l : Line) (n : Component) : l < l.child n := lt_foldl_child l n []

theorem child_lt_child {l : Line} {a b : Component} (h : a.val < b.val) : l.child a < l.child b := by
  rw [lt_def, numbers_child, numbers_child]
  exact List.append_left_lt (List.cons_lt_cons_iff.2 (.inl h))

theorem child_injective {l : Line} {a b : Component} (h : l.child a = l.child b) : a = b := by
  simpa using congrArg last h

theorem child_lt_child_iff {l : Line} {a b : Component} :
    l.child a < l.child b ↔ a.val < b.val := by
  refine ⟨fun h => Nat.lt_of_not_le fun hle => ?_, child_lt_child⟩
  rcases Nat.lt_or_eq_of_le hle with hlt | heq
  · exact lt_irrefl _ (lt_trans h (child_lt_child hlt))
  · exact ne_of_lt h (by rw [Component.ext_val heq])

/-- A derived line is its parent with its last component behind it. -/
theorem child_parent_last {l : Line} (h : l.isSynthetic) : l.parent.child l.last = l := by
  have nonempty : l.suffixes ≠ [] := by simpa [isSynthetic] using h
  have last : l.last = l.suffixes.getLast nonempty := by
    simp [Line.last, List.getLast?_eq_some_getLast nonempty]
  rw [child, parent, last, List.dropLast_concat_getLast]

/-- Only the source line decides between lines that derive from different ones. -/
theorem lt_real_of_source_lt {l : Line} {n : UInt32} (h : l.source.val < n.toNat) : l < real n := by
  rw [lt_def]
  refine List.cons_lt_cons_iff.2 (.inl ?_)
  show l.source.val < (Component.clamp n).val
  rwa [Component.val_clamp_of_pos (Nat.zero_lt_of_lt h)]

theorem lt_next_real {l : Line} (room : l.source.val < 4294967295) :
    l < real (.ofNat (l.source.val + 1)) := by
  refine lt_real_of_source_lt ?_
  rw [UInt32.toNat_ofNat_of_lt' (Nat.succ_lt_succ room)]
  exact Nat.lt_succ_self _

/-! ## Comparison -/

theorem compare_eq_lt_iff {a b : Line} : compare a b = .lt ↔ a < b := by
  by_cases before : a < b
  · simp [compare, before]
  · by_cases same : a = b <;> simp [compare, before, same]

theorem not_lt_iff {a b : Line} : ¬b < a ↔ a < b ∨ a = b := by
  have same : a.numbers = b.numbers ↔ a = b := ⟨numbers_injective, congrArg numbers⟩
  rw [lt_def, List.not_lt, List.le_iff_lt_or_eq, same, lt_def]

theorem isLE_compare_iff {a b : Line} : (compare a b).isLE ↔ ¬b < a := by
  rw [not_lt_iff]
  by_cases before : a < b
  · simp [compare, before]
  · rw [compare, if_neg before]
    by_cases same : a = b <;> simp [before, same]

theorem compare_child {l : Line} {a b : Component} :
    compare (l.child a) (l.child b) = Ord.compare a.val b.val := by
  have same : l.child a = l.child b ↔ a.val = b.val :=
    ⟨fun h => congrArg _ (child_injective h), fun h => congrArg _ (Component.ext_val h)⟩
  show _ = compareOfLessAndEq a.val b.val
  simp only [compare, child_lt_child_iff, same, compareOfLessAndEq]

/-! ## Intervals -/

/-- The line with another last component. -/
def withLast (l : Line) (c : Component) : Line :=
  if l.isSynthetic then l.parent.child c else ⟨c, []⟩

/-- The next sibling of a line, whose last component is one higher. -/
def nextSibling (l : Line) (room : l.last.val < 4294967295) : Line :=
  l.withLast ⟨l.last.val + 1, Nat.le_add_left .., room⟩

theorem suffixes_eq_nil {l : Line} (bare : ¬l.isSynthetic) : l.suffixes = [] := by
  simpa [isSynthetic] using bare

theorem numbers_withLast (l : Line) (c : Component) :
    (l.withLast c).numbers = l.numbers.dropLast ++ [c.val] := by
  by_cases synthetic : l.isSynthetic
  · have own : l.numbers = l.parent.numbers ++ [l.last.val] := by
      rw [← numbers_child, child_parent_last synthetic]
    rw [withLast, if_pos synthetic, numbers_child, own, List.dropLast_concat]
  · rw [withLast, if_neg synthetic]
    simp [numbers, parts, suffixes_eq_nil synthetic]

theorem withLast_last (l : Line) : l.withLast l.last = l := by
  by_cases synthetic : l.isSynthetic
  · rw [withLast, if_pos synthetic, child_parent_last synthetic]
  · apply parts_injective
    simp [withLast, synthetic, last, parts, suffixes_eq_nil synthetic]

theorem numbers_eq_concat (l : Line) : l.numbers = l.numbers.dropLast ++ [l.last.val] := by
  rw [← numbers_withLast, withLast_last]

theorem numbers_isPrefix_iff {a b : Line} : a.numbers <+: b.numbers ↔ a.parts <+: b.parts :=
  List.prefix_map_iff_of_injective fun _ _ => Component.ext_val

/-- Of two lists of numbers that differ in their last number by one, those from the first up to the
second are those that begin with the first. -/
theorem between_iff_isPrefix {front ms : List Nat} {n : Nat} :
    ¬ms < front ++ [n] ∧ ms < front ++ [n + 1] ↔ front ++ [n] <+: ms := by
  induction front generalizing ms with
  | nil =>
    cases ms with
    | nil => simp
    | cons m ms =>
      simp [List.cons_lt_cons_iff]
      omega
  | cons k front ih =>
    cases ms with
    | nil => simp
    | cons m ms =>
      simp only [List.cons_append, List.cons_lt_cons_iff, List.cons_prefix_cons, ← ih]
      -- A first number other than that of both bounds is below the one or above the other.
      rcases Nat.lt_trichotomy m k with below | rfl | above
      · simp [below, Nat.ne_of_gt below]
      · simp
      · simp [Nat.not_lt_of_gt above, Nat.ne_of_gt above, Nat.ne_of_lt above]

theorem between_nextSibling_iff {l m : Line} (room : l.last.val < 4294967295) :
    (compare l m).isLE ∧ compare m (l.nextSibling room) = .lt ↔ l.parts <+: m.parts := by
  have own := numbers_eq_concat l
  have next : (l.nextSibling room).numbers = l.numbers.dropLast ++ [l.last.val + 1] :=
    numbers_withLast ..
  rw [isLE_compare_iff, compare_eq_lt_iff, lt_def, lt_def, ← numbers_isPrefix_iff, next]
  generalize l.numbers.dropLast = front at own ⊢
  rw [own]
  exact between_iff_isPrefix

theorem parts_isPrefix_foldl_child (l : Line) (ns : List Component) :
    l.parts <+: (ns.foldl child l).parts := by
  rw [← numbers_isPrefix_iff, numbers_foldl_child]
  exact List.prefix_append ..

/-- The lines from a line up to its next sibling are those whose components begin with its own. All
that is derived from the line is among them, and siblings compare as their suffixes do. -/
theorem derived_lines_nest (l : Line) :
    (∀ (room : l.last.val < 4294967295) (m : Line),
      (compare l m).isLE ∧ compare m (l.nextSibling room) = .lt ↔ l.parts <+: m.parts) ∧
    (∀ n ns, compare l ((n :: ns).foldl child l) = .lt ∧
      ∀ room : l.last.val < 4294967295,
        compare ((n :: ns).foldl child l) (l.nextSibling room) = .lt) ∧
    ∀ a b, compare (l.child a) (l.child b) = Ord.compare a.val b.val := by
  refine ⟨fun room m => between_nextSibling_iff room, fun n ns => ⟨?_, fun room => ?_⟩,
    fun a b => compare_child⟩
  · exact compare_eq_lt_iff.2 (lt_foldl_child l n ns)
  · exact ((between_nextSibling_iff room).2 (parts_isPrefix_foldl_child l (n :: ns))).2

/-- The line `12.1.4294967295.7` is derived from `12.1` and stands before `12.2`. -/
theorem derived_lines_nest_full :
    let l := (real 12).child (.clamp 1)
    let m := (l.child (.clamp 4294967295)).child (.clamp 7)
    ∃ room : l.last.val < 4294967295, l.parts <+: m.parts ∧
      compare m (l.nextSibling room) = .lt ∧ (l.nextSibling room).numbers = [12, 2] := by
  intro l m
  have room : l.last.val < 4294967295 := by decide
  obtain ⟨within, below, -⟩ := derived_lines_nest l
  have between := (below (.clamp 4294967295) [.clamp 7]).2 room
  exact ⟨room, (within room m).1 ⟨by decide, between⟩, between, rfl⟩

end Line

end ScriptFrontend
