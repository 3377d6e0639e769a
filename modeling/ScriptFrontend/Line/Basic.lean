/-!
# Line identifiers

A line identifier says where a piece of a program came from. `12` is line 12 of the source; `12.1`
and `12.2` are the first lines that a compiler pass derived from it, and `12.2.1` is derived from
`12.2` in turn. An identifier is therefore a source line followed by suffixes, each of them a
number from 1 to 4294967295, and it is never empty.

Identifiers are ordered as words in a dictionary are, with numbers for letters: the first
difference decides, and a line comes before all that is derived from it. So everything derived
from a line stands after that line and before its next sibling.
-/

namespace ScriptFrontend

/-- One number of a line identifier: a 32-bit number other than zero. -/
structure Component where
  val : Nat
  one_le : 1 ≤ val
  le_max : val ≤ 4294967295
deriving DecidableEq

namespace Component

def ofNat? (n : Nat) : Option Component :=
  if h : 1 ≤ n ∧ n ≤ 4294967295 then some ⟨n, h.1, h.2⟩ else none

/-- Components count from 1, so zero is taken for 1. -/
def clamp (n : UInt32) : Component where
  val := max 1 n.toNat
  one_le := Nat.le_max_left ..
  le_max := by
    have := n.toNat_lt
    omega

def succ? (c : Component) : Option Component := ofNat? (c.val + 1)

theorem ext_val {a b : Component} (h : a.val = b.val) : a = b := by
  cases a
  cases b
  simp_all

theorem ofNat?_eq_some_iff {n : Nat} {c : Component} : ofNat? n = some c ↔ c.val = n := by
  unfold ofNat?
  constructor
  · intro h
    split at h
    · cases h; rfl
    · simp at h
  · rintro rfl
    rw [dif_pos ⟨c.one_le, c.le_max⟩]

theorem ofNat?_eq_none_iff {n : Nat} : ofNat? n = none ↔ n = 0 ∨ 4294967295 < n := by
  unfold ofNat?
  split
  · rename_i h
    simp
    omega
  · rename_i h
    simp
    omega

@[simp] theorem ofNat?_val (c : Component) : ofNat? c.val = some c :=
  ofNat?_eq_some_iff.2 rfl

theorem succ?_eq_some_iff {c d : Component} : c.succ? = some d ↔ d.val = c.val + 1 :=
  ofNat?_eq_some_iff

theorem succ?_eq_none_iff {c : Component} : c.succ? = none ↔ c.val = 4294967295 := by
  have := c.le_max
  rw [succ?, ofNat?_eq_none_iff]
  omega

theorem toNat_ofNat_val (c : Component) : (UInt32.ofNat c.val).toNat = c.val :=
  UInt32.toNat_ofNat_of_lt' (Nat.lt_succ_of_le c.le_max)

theorem val_clamp_of_pos {n : UInt32} (h : 0 < n.toNat) : (clamp n).val = n.toNat :=
  Nat.max_eq_right h

theorem clamp_ofNat_val (c : Component) : clamp (.ofNat c.val) = c := by
  apply ext_val
  rw [val_clamp_of_pos, toNat_ofNat_val]
  rw [toNat_ofNat_val]
  exact c.one_le

end Component

/-- A source line and the suffixes that lead from it to a derived line. -/
structure Line where
  source : Component
  suffixes : List Component
deriving DecidableEq

/-- Why components or a text do not make up a line identifier. -/
inductive LineError
  | empty
  | invalidComponent (text : String)
deriving DecidableEq

def LineError.message : LineError → String
  | .empty => "empty line identifier"
  | .invalidComponent text => "invalid line identifier component `" ++ text ++ "`"

namespace Line

/-- A line of the source; there is no line 0, and it is taken for line 1. -/
def real (n : UInt32) : Line := ⟨.clamp n, []⟩

def parts (l : Line) : List Component := l.source :: l.suffixes

/-- The identifier as plain numbers, which is what its order and its text depend on. -/
def numbers (l : Line) : List Nat := l.parts.map (·.val)

/-- The last component, which tells a derived line from its siblings. -/
def last (l : Line) : Component := l.suffixes.getLast?.getD l.source

/-- Whether the line was derived by a compiler pass. -/
def isSynthetic (l : Line) : Bool := !l.suffixes.isEmpty

/-- The line that this one was derived from; a source line is its own parent. -/
def parent (l : Line) : Line := { l with suffixes := l.suffixes.dropLast }

/-- The line with a suffix that is derived from this one. -/
def child (l : Line) (n : Component) : Line := { l with suffixes := l.suffixes ++ [n] }

/-- The line and all that it was derived from, down to the source line. -/
def lineage (l : Line) : List Line :=
  if _h : l.suffixes = [] then [l] else l :: l.parent.lineage
termination_by l.suffixes.length
decreasing_by
  have := List.length_pos_iff.2 ‹_›
  simp [parent]
  omega

/-- A line from its numbers: there is at least one, and none of them is zero. -/
def ofNumbers : List UInt32 → Except LineError Line
  | [] => .error .empty
  | source :: suffixes => do
    let source ← component source
    let suffixes ← suffixes.mapM component
    return ⟨source, suffixes⟩
where
  component (n : UInt32) : Except LineError Component :=
    if n = 0 then .error (.invalidComponent "0") else .ok (.clamp n)

@[simp] theorem parts_ne_nil (l : Line) : l.parts ≠ [] := by simp [parts]

@[simp] theorem parent_child (l : Line) (n : Component) : (l.child n).parent = l := by
  simp [child, parent]

@[simp] theorem source_parent (l : Line) : l.parent.source = l.source := rfl

@[simp] theorem source_child (l : Line) (n : Component) : (l.child n).source = l.source := rfl

@[simp] theorem last_child (l : Line) (n : Component) : (l.child n).last = n := by
  simp [child, last]

@[simp] theorem isSynthetic_child (l : Line) (n : Component) : (l.child n).isSynthetic := by
  simp [child, isSynthetic]

theorem numbers_child (l : Line) (n : Component) : (l.child n).numbers = l.numbers ++ [n.val] := by
  simp [child, numbers, parts]

theorem parts_injective {a b : Line} (h : a.parts = b.parts) : a = b := by
  cases a
  cases b
  simp_all [parts]

/-! ## Order -/

instance : LT Line := ⟨fun a b => List.Lex (· < ·) a.numbers b.numbers⟩

instance (a b : Line) : Decidable (a < b) :=
  @List.decidableLex Nat instDecidableEqNat (· < ·) Nat.decLt a.numbers b.numbers

theorem lt_def {a b : Line} : a < b ↔ a.numbers < b.numbers := Iff.rfl

def compare (a b : Line) : Ordering :=
  if a < b then .lt else if a = b then .eq else .gt

def sort (lines : List Line) : List Line := lines.mergeSort fun a b => !decide (b < a)

end Line

end ScriptFrontend
