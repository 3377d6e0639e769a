import Mathlib.Logic.Function.Iterate
import ScriptFrontend.Proofs.Hoist.Derived
import ScriptFrontend.Proofs.Json.RoundTrip

/-!
# From a line back to its source line

Lines come about in several ways. Some of these mend the numbers that they are given, others refuse
bad ones, and the step to the parent looks at no number at all. `Built` follows them on bare lists of
numbers, which nothing keeps from being empty or from holding a zero. The lists that come about are
exactly the numbers of lines, so what is checked where numbers come in is enough, and nothing has to
be checked afterwards.

A step to the parent takes one suffix away. The way back from a line is therefore as long as the
line has suffixes, goes down in the order of lines, and ends at the source line.
-/

namespace ScriptFrontend

namespace Line

/-! ## Numbers that come in -/

theorem val_of_ofNumbers_component {n : UInt32} {c : Component}
    (h : ofNumbers.component n = .ok c) : c.val = n.toNat := by
  rw [ofNumbers.component] at h
  split at h
  · cases h
  · rename_i nonzero
    have positive : 0 < n.toNat := Nat.pos_of_ne_zero fun zero => nonzero (UInt32.toNat_inj.1 zero)
    cases h
    exact Component.val_clamp_of_pos positive

theorem ofNumbers_component_ofNat_val (c : Component) :
    ofNumbers.component (.ofNat c.val) = .ok c := by
  have nonzero : UInt32.ofNat c.val ≠ 0 := by
    intro zero
    have same := c.toNat_ofNat_val
    rw [zero, UInt32.toNat_zero] at same
    exact Nat.ne_of_lt c.one_le same
  rw [ofNumbers.component, if_neg nonzero, c.clamp_ofNat_val]

/-- Taking numbers in is taking each of them in, and there is at least one. -/
theorem ofNumbers_eq_ok_iff {ns : List UInt32} {l : Line} :
    ofNumbers ns = .ok l ↔ ns.mapM ofNumbers.component = .ok l.parts := by
  cases ns with
  | nil => simp [ofNumbers, parts, pure, Except.pure]
  | cons n ns => rw [← map_parts_cons, ← map_parts_eq_ok_iff, ofNumbers]

/-- Numbers that are taken in are taken in as they are. -/
theorem numbers_of_ofNumbers {ns : List UInt32} {l : Line} (h : ofNumbers ns = .ok l) :
    l.numbers = ns.map (·.toNat) :=
  map_of_mapM_eq_ok (fun _ _ => val_of_ofNumbers_component) (ofNumbers_eq_ok_iff.1 h)

/-- The numbers of every line can be taken in. -/
theorem ofNumbers_map_parts (l : Line) : ofNumbers (l.parts.map fun c => .ofNat c.val) = .ok l :=
  ofNumbers_eq_ok_iff.2 (mapM_map_eq_ok ofNumbers_component_ofNat_val l.parts)

/-! ## Ways to a line -/

/-- The numbers of the parent, read off bare numbers: all but the last of them, or the only one.
There is nothing to read off an empty list. -/
def parentOf? : List Nat → Option (List Nat)
  | [] => none
  | [n] => some [n]
  | n :: ns => some (n :: ns).dropLast

/-- The numbers between the dots of a text, whatever they are. -/
def numbersIn (text : String) : List Nat := (text.toList.splitOn '.').map placeValue

/-- A line that came about in finitely many steps, and the bare numbers that the same steps put
together. A zero is taken for 1 where a single number comes in; nothing else is mended. -/
inductive Built : Line → List Nat → Prop
  | real (n : UInt32) : Built (real n) [max 1 n.toNat]
  | ofNumbers {ns : List UInt32} {l : Line} : ofNumbers ns = .ok l → Built l (ns.map (·.toNat))
  | ofDotted {text : String} {l : Line} : ofDotted text = .ok l → Built l (numbersIn text)
  | ofJson {j : Json} {l : Line} : ofJson? j = some l → Built l ((j.text?.map numbersIn).getD [])
  | child {l : Line} {ns : List Nat} (n : UInt32) :
      Built l ns → Built (l.child (.clamp n)) (ns ++ [max 1 n.toNat])
  | parent {l : Line} {ns ms : List Nat} : Built l ns → parentOf? ns = some ms → Built l.parent ms
  /-- The line that a hoister derives after some actions, where its block was on a line that came
  about when it was bound. -/
  | fresh {block : Tree} {start h h' : Hoister} {actions : List Hoister.Action} {l : Line}
      {ns ms : List Nat} :
      Hoister.bind block = .ok start → (start.run actions).2 = h →
      Hoister.freshLine.run h = (.ok l, h') →
      Built start.origin ns → parentOf? ns = some ms →
      Built l (ms ++ [Hoister.highestSuffix block start.base + 1 + h.minted.length])

theorem parentOf?_numbers (l : Line) : parentOf? l.numbers = some l.parent.numbers := by
  obtain ⟨source, suffixes⟩ := l
  cases suffixes with
  | nil => rfl
  | cons c cs => simp [numbers, parts, parent, parentOf?]

theorem Built.numbers_eq {l : Line} {ns : List Nat} (built : Built l ns) : ns = l.numbers := by
  induction built with
  | real n => rfl
  | ofNumbers taken => exact (numbers_of_ofNumbers taken).symm
  | ofDotted read => exact (numbers_of_ofDotted read).symm
  | ofJson stored =>
    obtain ⟨text, rfl, read⟩ := ofJson?_eq_some_iff.1 stored
    rw [Json.text?, numbers_of_ofDotted read]
    rfl
  | child n _ ih =>
    rw [ih, numbers_child]
    rfl
  | parent _ cut ih =>
    rw [ih, parentOf?_numbers] at cut
    exact (Option.some.inj cut).symm
  | @fresh block start h h' actions l ns ms bound ran fresh _ cut ih =>
    obtain ⟨next, -, rfl, -⟩ := Hoister.freshLine_eq_ok_iff.1 fresh
    -- The block may be on another line by now; the base is still read off the line it was on.
    have base : h.base = start.base := ran ▸ ((Hoister.Continues.of_bind bound).run actions).base
    have suffix := Hoister.next_run bound actions
    rw [ran] at suffix
    rw [ih, parentOf?_numbers] at cut
    rw [numbers_child, base, suffix, ← Option.some.inj cut]
    rfl

/-- The numbers that come about with a line are its own, and every line comes about. -/
theorem built_iff {l : Line} {ns : List Nat} : Built l ns ↔ ns = l.numbers := by
  refine ⟨Built.numbers_eq, ?_⟩
  rintro rfl
  have taken := Built.ofNumbers (ofNumbers_map_parts l)
  rwa [taken.numbers_eq] at taken

/-! ## Ways back -/

theorem parent_lt {l : Line} (synthetic : l.isSynthetic) : l.parent < l := by
  have below : l.parent < l.parent.child l.last := lt_child l.parent l.last
  rwa [child_parent_last synthetic] at below

theorem real_source (l : Line) : real (.ofNat l.source.val) = ⟨l.source, []⟩ := by
  rw [real, Component.clamp_ofNat_val]

theorem source_iterate_parent (l : Line) (k : Nat) : (parent^[k] l).source = l.source := by
  induction k with
  | zero => rfl
  | succ k ih => rw [Function.iterate_succ_apply', source_parent, ih]

theorem length_suffixes_iterate_parent (l : Line) (k : Nat) :
    (parent^[k] l).suffixes.length = l.suffixes.length - k := by
  induction k with
  | zero => rfl
  | succ k ih => rw [Function.iterate_succ_apply', parent, List.length_dropLast, ih, Nat.sub_sub]

theorem isSynthetic_iterate_parent_iff {l : Line} {k : Nat} :
    (parent^[k] l).isSynthetic ↔ k < l.suffixes.length := by
  have length := length_suffixes_iterate_parent l k
  rw [isSynthetic, Bool.not_eq_true', List.isEmpty_eq_false_iff, ← List.length_pos_iff, length]
  exact Nat.sub_pos_iff_lt

theorem iterate_parent_eq_real_iff {l : Line} {k : Nat} :
    parent^[k] l = real (.ofNat l.source.val) ↔ l.suffixes.length ≤ k := by
  rw [real_source, ← Nat.not_lt, ← isSynthetic_iterate_parent_iff]
  constructor
  · intro reached
    simp [reached, isSynthetic]
  · intro bare
    apply parts_injective
    rw [parts, parts, source_iterate_parent, suffixes_eq_nil bare]

theorem iterate_parent_succ_lt {l : Line} {k : Nat} (h : k < l.suffixes.length) :
    parent^[k + 1] l < parent^[k] l := by
  rw [Function.iterate_succ_apply']
  exact parent_lt (isSynthetic_iterate_parent_iff.2 h)

theorem lineage_eq_map_iterate (l : Line) :
    l.lineage = (List.range l.parts.length).map fun k => parent^[k] l := by
  fun_induction lineage l with
  | case1 l bare => simp [parts, bare]
  | case2 l extended ih =>
    have length : l.parts.length = l.parent.parts.length + 1 := by
      have := List.length_pos_iff.2 extended
      simp only [parts, parent, List.length_cons, List.length_dropLast]
      omega
    rw [length, List.range_succ_eq_map, List.map_cons, List.map_map, ih]
    rfl

/-- Whatever way a line came about, its numbers are those that the way puts together: at least one,
each of them positive and of 32 bits, so that the source line and the parent can be read off them.
The parents of a line descend to its source line, and reach it after as many steps as the line has
suffixes and no sooner. -/
theorem parents_reach_source (l : Line) :
    (∀ ns, Built l ns ↔ ns = l.numbers) ∧
      (∀ ns, Built l ns → ns ≠ [] ∧ (∀ n ∈ ns, 1 ≤ n ∧ n ≤ 4294967295) ∧
        ns[0]? = some l.source.val ∧ parentOf? ns = some l.parent.numbers) ∧
      (∀ k, parent^[k] l = real (.ofNat l.source.val) ↔ l.parts.length - 1 ≤ k) ∧
      (∀ k < l.parts.length - 1,
        parent^[k + 1] l < parent^[k] l ∧ (parent^[k + 1] l).source = l.source) ∧
      l.lineage = (List.range l.parts.length).map (fun k => parent^[k] l) ∧
      ∀ n : UInt32, (l.child (.clamp n)).parent = l := by
  refine ⟨fun ns => built_iff, ?_, fun k => iterate_parent_eq_real_iff, ?_, lineage_eq_map_iterate l,
    fun n => parent_child l (.clamp n)⟩
  · intro ns built
    obtain rfl := built.numbers_eq
    exact ⟨l.valid.ne_nil, fun n mem => ⟨l.valid.one_le n mem, l.valid.le_max n mem⟩, rfl,
      parentOf?_numbers l⟩
  · intro k before
    exact ⟨iterate_parent_succ_lt before, source_iterate_parent l (k + 1)⟩

/-- A block begins with an assignment on the line that is read from `007.4.9`. The second line that
its hoister derives is `7.4.11`, two steps away from line 7. -/
theorem parents_reach_source_sibling :
    let l : Line := ⟨.clamp 7, [.clamp 4, .clamp 11]⟩
    Built l [7, 4, 11] ∧ l.numbers = [7, 4, 11] ∧ parentOf? [7, 4, 11] = some l.parent.numbers ∧
      parent^[1] l < l ∧ parent^[1] l ≠ real 7 ∧ parent^[2] l = real 7 ∧ parent^[9] l = real 7 := by
  intro l
  have read : ofDotted "007.4.9" = .ok ⟨.clamp 7, [.clamp 4, .clamp 9]⟩ := rfl
  have cut : parentOf? (numbersIn "007.4.9") = some [7, 4] := by decide
  have bound : Hoister.bind ⟨"block", [.ofTree (Hoister.assignmentOn
      ⟨.clamp 7, [.clamp 4, .clamp 9]⟩ Hoister.calledValue)]⟩ = .ok _ := rfl
  have built : Built l [7, 4, 11] :=
    @Built.fresh _ _ _ _ [.freshLine] l _ _ bound rfl rfl (.ofDotted read) cut
  obtain ⟨numbers, sound, reached, below, -⟩ := parents_reach_source l
  obtain ⟨-, -, -, parent⟩ := sound [7, 4, 11] built
  refine ⟨built, ((numbers _).1 built).symm, parent, (below 0 (by decide)).1, ?_,
    (reached 2).2 (by decide), (reached 9).2 (by decide)⟩
  intro early
  exact absurd ((reached 1).1 early) (by decide)

end Line

end ScriptFrontend
