import ScriptFrontend.Line.Dotted

/-!
# The dotted text of a line

A dot stands between two components and in no component, so the text falls apart into the decimal
texts of the components again, and no two lines have the same text. What can be read is a little
more than what is written: each piece may have zeros in front. The texts that can be read are given
here by their pieces alone, and so is the error for every other text.
-/

namespace ScriptFrontend

/-! ## Lists of items -/

section Items

variable {α β γ ε : Type} {read : α → Except ε β}

/-- Items that are all read back from their written form are read back as a list. -/
theorem mapM_map_eq_ok {write : β → α} (item : ∀ b, read (write b) = .ok b) (bs : List β) :
    (bs.map write).mapM read = .ok bs := by
  induction bs with
  | nil => rfl
  | cons b bs ih =>
    rw [List.map_cons, List.mapM_cons, item, ih]
    rfl

/-- If what an item is read as has the value that the item stands for, so has what a list of them is
read as. -/
theorem map_of_mapM_eq_ok {value : β → γ} {meaning : α → γ}
    (item : ∀ a b, read a = .ok b → value b = meaning a) {as : List α} {bs : List β}
    (h : as.mapM read = .ok bs) : bs.map value = as.map meaning := by
  induction as generalizing bs with
  | nil =>
    cases h
    rfl
  | cons a as ih =>
    rw [List.mapM_cons] at h
    cases head : read a with
    | error e => simp [head, bind, Except.bind] at h
    | ok b =>
      cases tail : as.mapM read with
      | error e => simp [head, tail, bind, Except.bind] at h
      | ok bs' =>
        rw [head, tail] at h
        cases h
        rw [List.map_cons, List.map_cons, item a b head, ih tail]

end Items

/-! ## Numerals -/

/-- The number that decimal digits stand for, each digit counted by its place. -/
def placeValue : List Char → Nat
  | [] => 0
  | c :: cs => (c.toNat - '0'.toNat) * Nat.pow 10 cs.length + placeValue cs

/-- Decimal digits whose number can be a component. -/
structure IsNumeral (piece : List Char) : Prop where
  ne_nil : piece ≠ []
  digits : ∀ c ∈ piece, '0'.toNat ≤ c.toNat ∧ c.toNat ≤ '9'.toNat
  one_le : 1 ≤ placeValue piece
  le_max : placeValue piece ≤ 4294967295

theorem ofDigitChars_eq_placeValue (cs : List Char) : Nat.ofDigitChars 10 cs 0 = placeValue cs := by
  induction cs with
  | nil => rfl
  | cons c cs ih =>
    rw [Nat.ofDigitChars_cons, Nat.ofDigitChars_eq_ofDigitChars_zero, ih, placeValue]
    simp [Nat.mul_comm]

theorem notMem_toDigits {c : Char} (other : ¬c.isDigit) (n : Nat) : c ∉ Nat.toDigits 10 n :=
  fun mem => other (Nat.isDigit_of_mem_toDigits (by decide) (by decide) mem)

/-- A digit is the decimal text of its number. -/
theorem toDigits_of_isDigit {c : Char} (h : c.isDigit) :
    Nat.toDigits 10 (c.toNat - '0'.toNat) = [c] ∧ c.toNat - '0'.toNat < 10 := by
  have spelt : ∀ k < 10, k.digitChar = Char.ofNat ('0'.toNat + k) := by decide
  obtain ⟨lower, upper⟩ := Char.isDigit_iff_toNat.1 h
  have small : c.toNat - '0'.toNat < 10 := by
    simp at *
    omega
  refine ⟨?_, small⟩
  rw [Nat.toDigits_of_lt_base small, spelt _ small, Nat.add_sub_cancel' lower, Char.ofNat_toNat]

/-- Digits behind a number other than zero are written as they are. -/
theorem toDigits_ofDigitChars {cs : List Char} (digits : ∀ c ∈ cs, c.isDigit) {n : Nat}
    (positive : 0 < n) :
    Nat.toDigits 10 (Nat.ofDigitChars 10 cs n) = Nat.toDigits 10 n ++ cs := by
  induction cs generalizing n with
  | nil => simp
  | cons c cs ih =>
    rw [List.forall_mem_cons] at digits
    obtain ⟨written, small⟩ := toDigits_of_isDigit digits.1
    have last : Nat.toDigits 10 (10 * n + (c.toNat - '0'.toNat)) = Nat.toDigits 10 n ++ [c] := by
      rw [← written, Nat.toDigits_append_toDigits (by decide) positive small]
    rw [Nat.ofDigitChars_cons, ih digits.2 (by omega), last, List.append_assoc,
      List.singleton_append]

/-- The number of a run of digits is written as that run without the zeros in front. -/
theorem toDigits_placeValue {cs : List Char} (digits : ∀ c ∈ cs, c.isDigit)
    (positive : 0 < placeValue cs) :
    Nat.toDigits 10 (placeValue cs) = cs.dropWhile (· == '0') := by
  induction cs with
  | nil => exact absurd positive (Nat.lt_irrefl 0)
  | cons c cs ih =>
    rw [List.forall_mem_cons] at digits
    by_cases zero : c = '0'
    · have same : placeValue (c :: cs) = placeValue cs := by simp [placeValue, zero]
      rw [same] at positive ⊢
      rw [ih digits.2 positive, List.dropWhile_cons_of_pos (by simpa using zero)]
    · obtain ⟨written, -⟩ := toDigits_of_isDigit digits.1
      have first : 0 < c.toNat - '0'.toNat := by
        refine Nat.sub_pos_of_lt (Nat.lt_of_le_of_ne ?_ fun same => zero ?_)
        · exact (Char.isDigit_iff_toNat.1 digits.1).1
        · exact Char.toNat_inj.1 same.symm
      rw [← ofDigitChars_eq_placeValue, Nat.ofDigitChars_cons, Nat.mul_zero, Nat.zero_add,
        toDigits_ofDigitChars digits.2 first, written,
        List.dropWhile_cons_of_neg (by simpa using zero), List.singleton_append]

namespace Component

theorem toDigits_injective {c d : Component} (h : Nat.toDigits 10 c.val = Nat.toDigits 10 d.val) :
    c = d := by
  have same := congrArg ofDigits? h
  rw [ofDigits?_toDigits, ofDigits?_toDigits] at same
  exact Option.some.inj same

theorem ofDigits?_eq_some_iff {piece : List Char} {c : Component} :
    ofDigits? piece = some c ↔ IsNumeral piece ∧ c.val = placeValue piece := by
  rw [ofDigits?, ofDigitChars_eq_placeValue]
  constructor
  · intro h
    split at h
    · rename_i run
      have value : c.val = placeValue piece := ofNat?_eq_some_iff.1 h
      refine ⟨⟨run.1, fun d mem => ?_, ?_, ?_⟩, value⟩
      · exact Char.isDigit_iff_toNat.1 (List.all_eq_true.1 run.2 d mem)
      · exact value ▸ c.one_le
      · exact value ▸ c.le_max
    · cases h
  · rintro ⟨numeral, value⟩
    have digits : piece.all Char.isDigit :=
      List.all_eq_true.2 fun d mem => Char.isDigit_iff_toNat.2 (numeral.digits d mem)
    rw [if_pos ⟨numeral.ne_nil, digits⟩]
    exact ofNat?_eq_some_iff.2 value

theorem ofDigits?_eq_none_iff {piece : List Char} : ofDigits? piece = none ↔ ¬IsNumeral piece := by
  constructor
  · intro h numeral
    have found : ofDigits? piece = some ⟨_, numeral.one_le, numeral.le_max⟩ :=
      ofDigits?_eq_some_iff.2 ⟨numeral, rfl⟩
    rw [h] at found
    cases found
  · intro h
    refine Option.eq_none_iff_forall_ne_some.2 fun c found => ?_
    exact h (ofDigits?_eq_some_iff.1 found).1

theorem isSome_ofDigits?_iff {piece : List Char} : (ofDigits? piece).isSome ↔ IsNumeral piece := by
  rw [Option.isSome_iff_ne_none, ne_eq, ofDigits?_eq_none_iff, Classical.not_not]

end Component

instance : DecidablePred IsNumeral := fun _ => decidable_of_iff _ Component.isSome_ofDigits?_iff

namespace Line

/-! ## Writing -/

theorem toList_dotted (l : Line) :
    l.dotted.toList = ['.'].intercalate (l.parts.map fun c => Nat.toDigits 10 c.val) := by
  rw [dotted, String.toList_intercalate, List.map_map]
  congr 1
  refine List.map_congr_left fun c _ => ?_
  simp

theorem splitOn_dotted (l : Line) :
    l.dotted.toList.splitOn '.' = l.parts.map fun c => Nat.toDigits 10 c.val := by
  rw [toList_dotted, List.splitOn_intercalate]
  · simp only [List.forall_mem_map]
    exact fun c _ => notMem_toDigits (by decide) c.val
  · simp

theorem dotted_injective {a b : Line} (h : a.dotted = b.dotted) : a = b := by
  have pieces := congrArg (fun text => text.toList.splitOn '.') h
  rw [splitOn_dotted, splitOn_dotted] at pieces
  exact parts_injective ((List.map_inj_right fun _ _ => Component.toDigits_injective).1 pieces)

private theorem mem_intercalate_singleton {sep c : Char} {pieces : List (List Char)}
    (mem : c ∈ [sep].intercalate pieces) : c = sep ∨ ∃ piece ∈ pieces, c ∈ piece := by
  induction pieces with
  | nil => simp at mem
  | cons first pieces ih =>
    cases pieces with
    | nil => exact .inr ⟨first, List.mem_cons_self, by simpa using mem⟩
    | cons second pieces =>
      rw [List.intercalate_cons_cons, List.append_assoc, List.mem_append, List.mem_append,
        List.mem_singleton] at mem
      rcases mem with here | rfl | later
      · exact .inr ⟨first, List.mem_cons_self, here⟩
      · exact .inl rfl
      · exact (ih later).imp_right fun ⟨piece, within, has⟩ =>
          ⟨piece, List.mem_cons_of_mem _ within, has⟩

theorem notMem_dotted {c : Char} (other : ¬c.isDigit) (noDot : c ≠ '.') (l : Line) :
    c ∉ l.dotted.toList := by
  intro mem
  rw [toList_dotted] at mem
  rcases mem_intercalate_singleton mem with dot | ⟨piece, written, within⟩
  · exact noDot dot
  · obtain ⟨part, -, rfl⟩ := List.mem_map.1 written
    exact notMem_toDigits other part.val within

theorem dotted_ne_empty (l : Line) : l.dotted ≠ "" := by
  intro empty
  have pieces := splitOn_dotted l
  rw [empty, parts, List.map_cons] at pieces
  exact Nat.toDigits_ne_nil (List.cons.inj pieces).1.symm

/-! ## Reading pieces -/

theorem component_eq_ok_iff {piece : List Char} {c : Component} :
    ofDotted.component piece = .ok c ↔ IsNumeral piece ∧ c.val = placeValue piece := by
  rw [← Component.ofDigits?_eq_some_iff, ofDotted.component]
  cases Component.ofDigits? piece <;> simp

theorem component_eq_error_iff {piece : List Char} {e : LineError} :
    ofDotted.component piece = .error e ↔
      ¬IsNumeral piece ∧ e = .invalidComponent (.ofList piece) := by
  rw [← Component.ofDigits?_eq_none_iff, ofDotted.component]
  cases Component.ofDigits? piece <;> simp [eq_comm]

theorem mapM_component_cons (piece : List Char) (pieces : List (List Char)) :
    (piece :: pieces).mapM ofDotted.component =
      (ofDotted.component piece).bind fun c => (pieces.mapM ofDotted.component).map (c :: ·) := by
  rw [List.mapM_cons]
  cases ofDotted.component piece <;> rfl

theorem mapM_component_toDigits (cs : List Component) :
    (cs.map fun c => Nat.toDigits 10 c.val).mapM ofDotted.component = .ok cs := by
  refine mapM_map_eq_ok (fun c => ?_) cs
  rw [ofDotted.component, Component.ofDigits?_toDigits]

theorem numbers_of_mapM_component {pieces : List (List Char)} {cs : List Component}
    (h : pieces.mapM ofDotted.component = .ok cs) :
    cs.map (·.val) = pieces.map placeValue :=
  map_of_mapM_eq_ok (fun _ _ read => (component_eq_ok_iff.1 read).2) h

theorem mapM_component_eq_error_iff {pieces : List (List Char)} {e : LineError} :
    pieces.mapM ofDotted.component = .error e ↔
      ∃ piece, pieces.find? (¬IsNumeral ·) = some piece ∧
        e = .invalidComponent (.ofList piece) := by
  induction pieces with
  | nil => simp [pure, Except.pure]
  | cons piece pieces ih =>
    rw [mapM_component_cons]
    cases head : ofDotted.component piece with
    | error e' =>
      obtain ⟨malformed, rfl⟩ := component_eq_error_iff.1 head
      rw [List.find?_cons_of_pos (by simpa using malformed)]
      simp [Except.bind, eq_comm]
    | ok c =>
      have numeral := (component_eq_ok_iff.1 head).1
      rw [List.find?_cons_of_neg (by simpa using numeral), ← ih]
      cases pieces.mapM ofDotted.component <;> simp [Except.bind, Except.map]

/-! ## Reading texts -/

/-- Reading the source line and then the suffixes is reading all components. -/
theorem map_parts_cons {α : Type} (read : α → Except LineError Component) (first : α)
    (rest : List α) :
    (do
      let source ← read first
      let suffixes ← rest.mapM read
      return (⟨source, suffixes⟩ : Line)).map parts = (first :: rest).mapM read := by
  rw [List.mapM_cons]
  cases read first with
  | error e => rfl
  | ok c => cases rest.mapM read <;> rfl

theorem map_parts_eq_ok_iff {answer : Except LineError Line} {l : Line} :
    answer.map parts = .ok l.parts ↔ answer = .ok l := by
  cases answer with
  | error e => simp [Except.map]
  | ok m => simpa [Except.map] using ⟨parts_injective, congrArg parts⟩

/-- Reading a text is reading its pieces. -/
theorem map_parts_ofDotted {text : String} (nonempty : text ≠ "") :
    (ofDotted text).map parts = (text.toList.splitOn '.').mapM ofDotted.component := by
  rw [ofDotted, if_neg nonempty]
  cases pieces : text.toList.splitOn '.' with
  | nil => exact absurd pieces (by simp)
  | cons source suffixes => exact map_parts_cons ofDotted.component source suffixes

theorem ofDotted_eq_ok_iff {text : String} {l : Line} :
    ofDotted text = .ok l ↔
      text ≠ "" ∧ (text.toList.splitOn '.').mapM ofDotted.component = .ok l.parts := by
  by_cases empty : text = ""
  · simp [ofDotted, empty]
  · rw [← map_parts_ofDotted empty, map_parts_eq_ok_iff]
    simp [empty]

/-- A line is read back from its text. -/
theorem ofDotted_dotted (l : Line) : ofDotted l.dotted = .ok l := by
  rw [ofDotted_eq_ok_iff, splitOn_dotted]
  exact ⟨dotted_ne_empty l, mapM_component_toDigits l.parts⟩

theorem ofDotted_eq_error_iff {text : String} {e : LineError} :
    ofDotted text = .error e ↔
      text = "" ∧ e = .empty ∨
        text ≠ "" ∧ ∃ piece, (text.toList.splitOn '.').find? (¬IsNumeral ·) = some piece ∧
          e = .invalidComponent (.ofList piece) := by
  by_cases empty : text = ""
  · simp [ofDotted, empty, @eq_comm _ LineError.empty]
  · rw [← mapM_component_eq_error_iff, ← map_parts_ofDotted empty]
    cases ofDotted text <;> simp [Except.map, empty]

theorem exists_ofDotted_iff {text : String} :
    (∃ l, ofDotted text = .ok l) ↔
      text ≠ "" ∧ ∀ piece ∈ text.toList.splitOn '.', IsNumeral piece := by
  have sound : (∀ piece ∈ text.toList.splitOn '.', IsNumeral piece) ↔
      (text.toList.splitOn '.').find? (¬IsNumeral ·) = none := by simp
  rw [sound]
  constructor
  · rintro ⟨l, h⟩
    have nonempty := (ofDotted_eq_ok_iff.1 h).1
    refine ⟨nonempty, Option.eq_none_iff_forall_ne_some.2 fun piece found => ?_⟩
    have refused := ofDotted_eq_error_iff.2 (.inr ⟨nonempty, piece, found, rfl⟩)
    rw [h] at refused
    cases refused
  · rintro ⟨nonempty, none⟩
    cases h : ofDotted text with
    | ok l => exact ⟨l, rfl⟩
    | error e =>
      rcases ofDotted_eq_error_iff.1 h with ⟨empty, -⟩ | ⟨-, piece, found, -⟩
      · exact absurd empty nonempty
      · rw [none] at found
        cases found

theorem numbers_of_ofDotted {text : String} {l : Line} (h : ofDotted text = .ok l) :
    l.numbers = (text.toList.splitOn '.').map placeValue :=
  numbers_of_mapM_component (ofDotted_eq_ok_iff.1 h).2

/-- A text that was read is written again without the zeros in front of its numbers. -/
theorem toList_dotted_of_ofDotted {text : String} {l : Line} (h : ofDotted text = .ok l) :
    l.dotted.toList
      = ['.'].intercalate ((text.toList.splitOn '.').map (·.dropWhile (· == '0'))) := by
  have written : l.parts.map (fun c => Nat.toDigits 10 c.val)
      = ((text.toList.splitOn '.').map placeValue).map (Nat.toDigits 10) := by
    rw [← numbers_of_ofDotted h, numbers, List.map_map]
    rfl
  rw [toList_dotted, written, List.map_map]
  congr 1
  refine List.map_congr_left fun piece mem => ?_
  have numeral := (exists_ofDotted_iff.1 ⟨l, h⟩).2 piece mem
  exact toDigits_placeValue (fun c mem => Char.isDigit_iff_toNat.2 (numeral.digits c mem))
    numeral.one_le

/-- Which texts are read, what is read from them, what is wrong with the others, and that every line
is read from its own text. -/
theorem dotted_grammar (text : String) :
    ((∃ l, ofDotted text = .ok l) ↔
      text ≠ "" ∧ ∀ piece ∈ text.toList.splitOn '.', IsNumeral piece) ∧
    (∀ l, ofDotted text = .ok l →
      l.numbers = (text.toList.splitOn '.').map placeValue ∧
      l.dotted.toList
        = ['.'].intercalate ((text.toList.splitOn '.').map (·.dropWhile (· == '0')))) ∧
    (∀ e, ofDotted text = .error e ↔
      text = "" ∧ e = .empty ∨
        text ≠ "" ∧ ∃ piece, (text.toList.splitOn '.').find? (¬IsNumeral ·) = some piece ∧
          e = .invalidComponent (.ofList piece)) ∧
    ∀ l : Line, ofDotted l.dotted = .ok l :=
  ⟨exists_ofDotted_iff, fun _ h => ⟨numbers_of_ofDotted h, toList_dotted_of_ofDotted h⟩,
    fun _ => ofDotted_eq_error_iff, ofDotted_dotted⟩

/-- Zeros in front are read and not kept; a sign is not read, and what is behind it is not looked
at. -/
theorem dotted_grammar_zeros :
    (∃ l, ofDotted "007.4294967295" = .ok l ∧ l.numbers = [7, 4294967295] ∧
      l.dotted.toList = "7.4294967295".toList) ∧
    ofDotted "7.+3." = .error (.invalidComponent "+3") := by
  obtain ⟨accepted, read, -⟩ := dotted_grammar "007.4294967295"
  obtain ⟨-, -, refused, -⟩ := dotted_grammar "7.+3."
  obtain ⟨l, h⟩ := accepted.2 (by decide)
  obtain ⟨numbers, written⟩ := read l h
  refine ⟨⟨l, h, ?_, ?_⟩, ?_⟩
  · rw [numbers]
    decide
  · rw [written]
    decide
  · exact (refused _).2 (.inr ⟨by decide, "+3".toList, by decide, rfl⟩)

end Line

end ScriptFrontend
