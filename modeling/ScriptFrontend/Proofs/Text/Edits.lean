import ScriptFrontend.Text.Distance

/-!
# Edits of words

An edit inserts, deletes or replaces one character. The edit distance of two words is defined by its
rows; here it is shown to be the least number of edits that leads from one word to the other. In
between stands the recurrence on first characters: its value can be reached by edits, and no edit
changes it by more than one, so fewer edits never do. A row holds values of the recurrence for
reversed words, since rows grow at the end of a word and the recurrence takes words apart at the
front; edits read the same in both directions.
-/

namespace ScriptFrontend.Text

/-- One character of a word is inserted, deleted or replaced. -/
inductive Edit : List Char → List Char → Prop
  | insertion (before after : List Char) (c : Char) : Edit (before ++ after) (before ++ c :: after)
  | deletion (before after : List Char) (c : Char) : Edit (before ++ c :: after) (before ++ after)
  | replacement (before after : List Char) (c d : Char) :
      Edit (before ++ c :: after) (before ++ d :: after)

/-- A number of edits, one after another, leads from one word to another. -/
inductive EditsTo : Nat → List Char → List Char → Prop
  | done (xs : List Char) : EditsTo 0 xs xs
  | more {n : Nat} {xs ys zs : List Char} (edit : Edit xs ys) (rest : EditsTo n ys zs) :
      EditsTo (n + 1) xs zs

theorem Edit.cons {xs ys : List Char} (h : Edit xs ys) (c : Char) : Edit (c :: xs) (c :: ys) := by
  cases h with
  | insertion before after d => exact .insertion (c :: before) after d
  | deletion before after d => exact .deletion (c :: before) after d
  | replacement before after d e => exact .replacement (c :: before) after d e

theorem Edit.reverse {xs ys : List Char} (h : Edit xs ys) : Edit xs.reverse ys.reverse := by
  cases h with
  | insertion before after c => simpa using Edit.insertion after.reverse before.reverse c
  | deletion before after c => simpa using Edit.deletion after.reverse before.reverse c
  | replacement before after c d => simpa using Edit.replacement after.reverse before.reverse c d

theorem Edit.length_le {xs ys : List Char} (h : Edit xs ys) :
    xs.length ≤ ys.length + 1 ∧ ys.length ≤ xs.length + 1 := by
  cases h <;> simp <;> omega

namespace EditsTo

variable {n : Nat} {xs ys : List Char}

theorem cons (h : EditsTo n xs ys) (c : Char) : EditsTo n (c :: xs) (c :: ys) := by
  induction h with
  | done xs => exact .done (c :: xs)
  | more edit _ ih => exact .more (edit.cons c) ih

theorem insert (h : EditsTo n xs ys) (c : Char) : EditsTo (n + 1) xs (c :: ys) :=
  .more (.insertion [] xs c) (h.cons c)

theorem delete (h : EditsTo n xs ys) (c : Char) : EditsTo (n + 1) (c :: xs) ys :=
  .more (.deletion [] xs c) h

theorem replace (h : EditsTo n xs ys) (c d : Char) : EditsTo (n + 1) (c :: xs) (d :: ys) :=
  .more (.replacement [] xs c d) (h.cons d)

theorem reverse (h : EditsTo n xs ys) : EditsTo n xs.reverse ys.reverse := by
  induction h with
  | done xs => exact .done xs.reverse
  | more edit _ ih => exact .more edit.reverse ih

/-- The lengths of two words differ by no more than the number of edits. -/
theorem length_le (h : EditsTo n xs ys) :
    xs.length ≤ ys.length + n ∧ ys.length ≤ xs.length + n := by
  induction h with
  | done xs => exact ⟨Nat.le_refl _, Nat.le_refl _⟩
  | more edit _ ih =>
    have := edit.length_le
    omega

end EditsTo

/-! ## The recurrence -/

/-- The edit distance by the first characters of two words: one of them goes, or the two of them
are made equal. -/
def editCost : List Char → List Char → Nat
  | [], ys => ys.length
  | x :: xs, [] => (x :: xs).length
  | x :: xs, y :: ys =>
    min (min (editCost xs (y :: ys) + 1) (editCost (x :: xs) ys + 1))
      (editCost xs ys + if x = y then 0 else 1)
termination_by xs ys => xs.length + ys.length

@[simp] theorem editCost_nil_left (ys : List Char) : editCost [] ys = ys.length := by
  rw [editCost]

@[simp] theorem editCost_nil_right (xs : List Char) : editCost xs [] = xs.length := by
  cases xs <;> rw [editCost]

theorem editCost_cons_cons (x y : Char) (xs ys : List Char) :
    editCost (x :: xs) (y :: ys)
      = min (min (editCost xs (y :: ys) + 1) (editCost (x :: xs) ys + 1))
          (editCost xs ys + if x = y then 0 else 1) := by
  rw [editCost]

/-- The third way through the recurrence costs at most one edit more than the rest of it. -/
theorem editCost_cons_cons_bounds (x y : Char) (xs ys : List Char) :
    ∃ change ≤ 1, editCost (x :: xs) (y :: ys)
      = min (min (editCost xs (y :: ys) + 1) (editCost (x :: xs) ys + 1))
          (editCost xs ys + change) := by
  refine ⟨if x = y then 0 else 1, ?_, editCost_cons_cons x y xs ys⟩
  split <;> omega

theorem editCost_self (xs : List Char) : editCost xs xs = 0 := by
  induction xs with
  | nil => rw [editCost_nil_left, List.length_nil]
  | cons x xs ih =>
    rw [editCost_cons_cons, ih, if_pos rfl]
    omega

/-- The recurrence counts edits that do lead from one word to the other. -/
theorem editsTo_editCost (xs ys : List Char) : EditsTo (editCost xs ys) xs ys := by
  fun_induction editCost xs ys with
  | case1 ys =>
    induction ys with
    | nil => exact .done []
    | cons y ys ih => exact ih.insert y
  | case2 x xs =>
    induction xs generalizing x with
    | nil => exact (EditsTo.done []).delete x
    | cons next xs ih => exact (ih next).delete x
  | case3 x xs y ys delete insert both =>
    rcases Nat.le_total (min (editCost xs (y :: ys) + 1) (editCost (x :: xs) ys + 1))
      (editCost xs ys + if x = y then 0 else 1) with one | change
    · rw [Nat.min_eq_left one]
      rcases Nat.le_total (editCost xs (y :: ys) + 1) (editCost (x :: xs) ys + 1) with less | less
      · rw [Nat.min_eq_left less]
        exact delete.delete x
      · rw [Nat.min_eq_right less]
        exact insert.insert y
    · rw [Nat.min_eq_right change]
      by_cases same : x = y
      · rw [if_pos same, same]
        exact both.cons y
      · rw [if_neg same]
        exact both.replace x y

theorem editCost_cons_right_le (xs zs : List Char) (z : Char) :
    editCost xs (z :: zs) ≤ editCost xs zs + 1 := by
  cases xs with
  | nil => simp
  | cons x xs =>
    obtain ⟨change, _, cost⟩ := editCost_cons_cons_bounds x z xs zs
    omega

theorem editCost_cons_left_le (xs zs : List Char) (c : Char) :
    editCost (c :: xs) zs ≤ editCost xs zs + 1 := by
  cases zs with
  | nil => simp
  | cons z zs =>
    obtain ⟨change, _, cost⟩ := editCost_cons_cons_bounds c z xs zs
    omega

theorem editCost_le_cons_left (xs zs : List Char) (c : Char) :
    editCost xs zs ≤ editCost (c :: xs) zs + 1 := by
  induction zs with
  | nil =>
    simp
    omega
  | cons z zs ih =>
    obtain ⟨change, _, cost⟩ := editCost_cons_cons_bounds c z xs zs
    have longer := editCost_cons_right_le xs zs z
    omega

theorem editCost_cons_le_cons (xs zs : List Char) (c d : Char) :
    editCost (c :: xs) zs ≤ editCost (d :: xs) zs + 1 := by
  induction zs with
  | nil => simp
  | cons z zs ih =>
    obtain ⟨_, _, cost⟩ := editCost_cons_cons_bounds c z xs zs
    obtain ⟨_, _, cost'⟩ := editCost_cons_cons_bounds d z xs zs
    omega

/-- What is true of two words stays true behind a common first character. -/
theorem editCost_cons_le_of_le {xs ys : List Char}
    (h : ∀ zs, editCost xs zs ≤ editCost ys zs + 1) (c : Char) (zs : List Char) :
    editCost (c :: xs) zs ≤ editCost (c :: ys) zs + 1 := by
  induction zs with
  | nil => simpa using h []
  | cons z zs ih =>
    have both := h zs
    have longer := h (z :: zs)
    rw [editCost_cons_cons, editCost_cons_cons]
    omega

theorem editCost_append_le_of_le {xs ys : List Char}
    (h : ∀ zs, editCost xs zs ≤ editCost ys zs + 1) (before zs : List Char) :
    editCost (before ++ xs) zs ≤ editCost (before ++ ys) zs + 1 := by
  induction before generalizing zs with
  | nil => exact h zs
  | cons c before ih => exact editCost_cons_le_of_le ih c zs

/-- No edit brings a word nearer to another by more than one. -/
theorem editCost_le_of_edit {xs ys : List Char} (h : Edit xs ys) (zs : List Char) :
    editCost xs zs ≤ editCost ys zs + 1 := by
  cases h with
  | insertion before after c =>
    exact editCost_append_le_of_le (fun zs => editCost_le_cons_left after zs c) before zs
  | deletion before after c =>
    exact editCost_append_le_of_le (fun zs => editCost_cons_left_le after zs c) before zs
  | replacement before after c d =>
    exact editCost_append_le_of_le (fun zs => editCost_cons_le_cons after zs c d) before zs

theorem editCost_le_of_editsTo {n : Nat} {xs ys : List Char} (h : EditsTo n xs ys) :
    editCost xs ys ≤ n := by
  induction h with
  | done xs => exact Nat.le_of_eq (editCost_self xs)
  | more edit _ ih => exact Nat.le_trans (editCost_le_of_edit edit _) (Nat.succ_le_succ ih)

/-! ## Rows -/

/-- The values of the recurrence for a word and the beginnings of another, both reversed. The other
word is `ys` behind the reversed `beginning`. -/
def costRow (xs beginning : List Char) : List Char → List Nat
  | [] => [editCost xs beginning]
  | y :: ys => editCost xs beginning :: costRow xs (y :: beginning) ys

theorem costRow_eq_cons (xs beginning ys : List Char) :
    ∃ row, costRow xs beginning ys = editCost xs beginning :: row := by
  cases ys with
  | nil => exact ⟨_, rfl⟩
  | cons y ys => exact ⟨_, rfl⟩

theorem cells_costRow (x : Char) (xs beginning ys : List Char) :
    editCost (x :: xs) beginning :: cells x ys (costRow xs beginning ys)
        (editCost (x :: xs) beginning)
      = costRow (x :: xs) beginning ys := by
  induction ys generalizing beginning with
  | nil => rfl
  | cons y ys ih =>
    obtain ⟨row, above⟩ := costRow_eq_cons xs (y :: beginning) ys
    have rest := ih (y :: beginning)
    rw [above, editCost_cons_cons] at rest
    rw [costRow, costRow, above, cells, ← rest]

theorem nextRow_costRow (x : Char) (xs ys : List Char) :
    nextRow ys (costRow xs [] ys) x = costRow (x :: xs) [] ys := by
  obtain ⟨row, eq⟩ := costRow_eq_cons xs [] ys
  have first : (costRow xs [] ys).headD 0 + 1 = editCost (x :: xs) [] := by
    rw [eq]
    simp
  rw [nextRow, first, cells_costRow]

theorem foldl_nextRow_costRow (xs done ys : List Char) :
    xs.foldl (nextRow ys) (costRow done [] ys) = costRow (xs.reverse ++ done) [] ys := by
  induction xs generalizing done with
  | nil => rfl
  | cons x xs ih =>
    rw [List.foldl_cons, nextRow_costRow, ih, List.reverse_cons, List.append_assoc,
      List.singleton_append]

theorem costRow_nil (beginning ys : List Char) :
    costRow [] beginning ys = List.range' beginning.length (ys.length + 1) := by
  induction ys generalizing beginning with
  | nil => simp [costRow]
  | cons y ys ih =>
    rw [costRow, ih, editCost_nil_left, List.length_cons, List.length_cons]
    exact List.range'_succ.symm

theorem getLastD_costRow (xs beginning ys : List Char) :
    (costRow xs beginning ys).getLastD 0 = editCost xs (ys.reverse ++ beginning) := by
  induction ys generalizing beginning with
  | nil => rfl
  | cons y ys ih =>
    obtain ⟨row, eq⟩ := costRow_eq_cons xs (y :: beginning) ys
    have rest := ih (y :: beginning)
    rw [eq, List.getLastD_cons] at rest
    rw [costRow, eq, List.getLastD_cons, List.getLastD_cons, rest, List.reverse_cons,
      List.append_assoc, List.singleton_append]

theorem distance_eq_editCost (xs ys : List Char) :
    distance xs ys = editCost xs.reverse ys.reverse := by
  have start : List.range (ys.length + 1) = costRow [] [] ys := by
    rw [costRow_nil, List.length_nil, List.range_eq_range']
  rw [distance, start, foldl_nextRow_costRow, getLastD_costRow, List.append_nil, List.append_nil]

/-! ## The distance -/

theorem editsTo_distance (xs ys : List Char) : EditsTo (distance xs ys) xs ys := by
  rw [distance_eq_editCost]
  simpa using (editsTo_editCost xs.reverse ys.reverse).reverse

theorem distance_le_of_editsTo {n : Nat} {xs ys : List Char} (h : EditsTo n xs ys) :
    distance xs ys ≤ n := by
  rw [distance_eq_editCost]
  exact editCost_le_of_editsTo h.reverse

theorem distance_le_iff {limit : Nat} {xs ys : List Char} :
    distance xs ys ≤ limit ↔ ∃ n ≤ limit, EditsTo n xs ys := by
  constructor
  · intro near
    exact ⟨_, near, editsTo_distance xs ys⟩
  · rintro ⟨n, near, edits⟩
    exact Nat.le_trans (distance_le_of_editsTo edits) near

/-- The edit distance is reached by that many edits from one word to the other, and by no fewer. -/
theorem editDistance_least (a b : String) :
    EditsTo (editDistance a b) a.toList b.toList ∧
      ∀ n, EditsTo n a.toList b.toList → editDistance a b ≤ n := by
  constructor
  · exact editsTo_distance a.toList b.toList
  · intro n edits
    exact distance_le_of_editsTo edits

example : editDistance "kitten" "sitting" = 3 := by decide +kernel

/-- The comparison of lengths leaves out no word that is near enough. -/
theorem isMisspelling_iff {word keyword : String} :
    isMisspelling word keyword ↔
      word ≠ keyword ∧ 3 ≤ word.length ∧
        ∃ n ≤ tolerance keyword.length, EditsTo n word.toList keyword.toList := by
  have lengths (near : ∃ n ≤ tolerance keyword.length, EditsTo n word.toList keyword.toList) :
      max word.length keyword.length - min word.length keyword.length
        ≤ tolerance keyword.length := by
    obtain ⟨n, near, edits⟩ := near
    have := edits.length_le
    simp only [String.length_toList] at this
    omega
  simp only [isMisspelling, Bool.and_eq_true, bne_iff_ne, decide_eq_true_eq]
  rw [editDistance, distance_le_iff]
  constructor
  · rintro ⟨⟨⟨differ, long⟩, -⟩, near⟩
    exact ⟨differ, long, near⟩
  · rintro ⟨differ, long, near⟩
    exact ⟨⟨⟨differ, long⟩, lengths near⟩, near⟩

/-- The distance of two words: so many edits lead from one to the other, and no fewer do. -/
structure IsDistance (n : Nat) (xs ys : List Char) : Prop where
  reached : EditsTo n xs ys
  least : ∀ m, EditsTo m xs ys → n ≤ m

theorem le_tolerance_iff {n length : Nat} :
    n ≤ tolerance length ↔
      length ≤ 2 ∧ n = 0 ∨ 3 ≤ length ∧ length ≤ 5 ∧ n ≤ 1 ∨ 6 ≤ length ∧ n ≤ 2 := by
  unfold tolerance
  split
  · omega
  · split <;> omega

/-- A misspelling is known by its distance from the keyword alone. Words whose lengths differ by more
than the keyword allows are as far away, so to leave them out at once leaves out no misspelling. -/
theorem isMisspelling_exact (word keyword : String) :
    ∃ d, editDistance word keyword = d ∧ IsDistance d word.toList keyword.toList ∧
      (isMisspelling word keyword ↔ word ≠ keyword ∧ 3 ≤ word.length ∧
        (keyword.length ≤ 2 ∧ d = 0 ∨ 3 ≤ keyword.length ∧ keyword.length ≤ 5 ∧ d ≤ 1 ∨
          6 ≤ keyword.length ∧ d ≤ 2)) ∧
      max word.length keyword.length - min word.length keyword.length ≤ d ∧
      (keyword.length ≤ 2 → isMisspelling word keyword = false) := by
  have reached : EditsTo (editDistance word keyword) word.toList keyword.toList :=
    editsTo_distance _ _
  have lengths := reached.length_le
  simp only [String.length_toList] at lengths
  have known : isMisspelling word keyword ↔
      word ≠ keyword ∧ 3 ≤ word.length ∧ editDistance word keyword ≤ tolerance keyword.length := by
    rw [isMisspelling_iff, ← distance_le_iff]
    rfl
  refine ⟨_, rfl, ⟨reached, fun _ => distance_le_of_editsTo⟩, ?_, by omega, fun short => ?_⟩
  · rw [known, le_tolerance_iff]
  · rw [Bool.eq_false_iff]
    intro misspelt
    obtain ⟨-, long, near⟩ := known.1 misspelt
    have same := le_tolerance_iff.1 near
    omega

/-- Two characters change places, which takes two edits; of a keyword of two characters there is no
misspelling, however near. -/
theorem isMisspelling_exact_transposed :
    isMisspelling "fucntion" "function" ∧ IsDistance 2 "fucntion".toList "function".toList ∧
      "if".length ≤ 2 ∧ isMisspelling "iff" "if" = false := by
  obtain ⟨d, computed, distance, known, -⟩ := isMisspelling_exact "fucntion" "function"
  obtain ⟨-, -, -, -, -, short⟩ := isMisspelling_exact "iff" "if"
  obtain rfl : 2 = d := by
    rw [← computed]
    decide +kernel
  exact ⟨known.2 (by decide), distance, by decide, short (by decide)⟩

end ScriptFrontend.Text
